import EventHttp.Proofs.Crew.Moves
import EventHttp.Proofs.Worker.InStep

/-! What one move of a worker does to the sockets at its station: none is lost, and at most
one is closed, which is then counted. -/

namespace EventHttp

namespace Table

variable {α : Type} {t : Table α} {fd : Fd} {a : α}

theorem size_eq_length_keys (t : Table α) : t.size = t.keys.length :=
  (List.length_map _).symm

theorem size_erase_add_one (hn : t.keys.Nodup) (hk : fd ∈ t.keys) :
    (t.erase fd).size + 1 = t.size := by
  rw [size_eq_length_keys, size_eq_length_keys, keys_erase_of_nodup hn,
    List.length_erase_add_one hk]

theorem size_put (t : Table α) (fd : Fd) (a : α) : (t.put fd a).size = (t.erase fd).size + 1 := by
  rw [size, put, List.length_append]
  rfl

theorem size_put_of_mem (hn : t.keys.Nodup) (hk : fd ∈ t.keys) : (t.put fd a).size = t.size := by
  rw [size_put, size_erase_add_one hn hk]

theorem size_put_of_not_mem (hk : fd ∉ t.keys) : (t.put fd a).size = t.size + 1 := by
  rw [size_eq_length_keys, size_eq_length_keys, keys_put_of_not_mem hk, List.length_append]
  rfl

end Table

namespace Workplace

variable {h : Handler} {cfg : Config} {idle : Option Nat} {p p' : Workplace} {fd : Fd} {now : Nat}

def held (p : Workplace) : Nat :=
  p.inbox.size + p.worker.connections.size

def Keeps (p p' : Workplace) : Prop :=
  p'.held = p.held ∧ p'.shared.counters.tally = p.shared.counters.tally

def Drops (p p' : Workplace) : Prop :=
  p'.held + 1 = p.held ∧ p'.shared.counters.tally = p.shared.counters.closed.tally

theorem inbox_teardown (p : Workplace) (fd : Fd) : (p.teardown fd).inbox = p.inbox := by
  unfold teardown
  dsimp only
  split <;> rfl

theorem counters_teardown (hk : fd ∈ p.worker.connections.keys) :
    (p.teardown fd).shared.counters = p.shared.counters.closed := by
  unfold teardown
  dsimp only
  rw [if_pos (Table.contains_iff_mem_keys.mpr hk)]

theorem drops_teardown (hs : p.worker.InStep idle) (hk : fd ∈ p.worker.connections.keys) :
    p.Drops (p.teardown fd) := by
  refine ⟨?_, congrArg Counters.tally (counters_teardown hk)⟩
  rw [held, inbox_teardown, connections_teardown, Nat.add_assoc,
    Table.size_erase_add_one hs.nodup hk, held]

theorem closed_tally {c c' : Counters} (hc : c.tally = c'.tally) :
    c.closed.tally = c'.closed.tally := by
  obtain ⟨ha, hc⟩ := Prod.mk.inj hc
  obtain ⟨hb, hc⟩ := Prod.mk.inj hc
  simp only [Counters.tally, Counters.closed, ha, hb, hc]

theorem inbox_touch (cfg : Config) (now : Nat) (p : Workplace) (fd : Fd) :
    (p.touch cfg now fd).inbox = p.inbox := by
  unfold touch
  split <;> rfl

theorem Stored.keeps {q : Workplace} (hs : p.worker.InStep idle)
    (hk : fd ∈ p.worker.connections.keys) (hq : Stored cfg now fd p q) : p.Keeps q := by
  refine ⟨?_, hq.tally⟩
  obtain ⟨c, s, rfl⟩ := hq.stored
  rw [held, held, store, touch_connections, Table.size_put_of_mem hs.nodup hk, inbox_touch]

theorem Keeps.trans_drops {q : Workplace} (hq : p.Keeps q) (hd : q.Drops p') : p.Drops p' :=
  ⟨hd.1.trans hq.1, hd.2.trans (closed_tally hq.2)⟩

theorem Served.keeps_or_drops (hs : p.worker.InStep idle) (hk : fd ∈ p.worker.connections.keys)
    (hv : Served cfg now fd p p') : p.Keeps p' ∨ p.Drops p' := by
  obtain ⟨q, hq, hend⟩ := hv
  have hkeep := hq.keeps hs hk
  have hqs : q.worker.InStep idle := by
    obtain ⟨c, s, rfl⟩ := hq.stored
    exact inStep_store (inStep_touch hs cfg now fd) (touch_connections cfg now p fd ▸ hk) c s
  rcases hend with rfl | ⟨interest, rfl⟩
  · exact Or.inr (hkeep.trans_drops (drops_teardown hqs hq.mem_keys))
  · exact Or.inl hkeep

theorem dispatch_keeps_or_drops (hs : p.worker.InStep idle) (h : Handler) (cfg : Config)
    (now : Nat) {e : Event} (he : e.fd ≠ p.worker.wakeupFd) (calls : Calls) :
    p.Keeps (p.dispatch h cfg now e calls).place ∨ p.Drops (p.dispatch h cfg now e calls).place := by
  rcases dispatch_cases h cfg now p e calls with ⟨hw, -⟩ | hsame | ⟨hk, htear | hv⟩
  · exact absurd hw he
  · rw [hsame]
    exact Or.inl ⟨rfl, rfl⟩
  · rw [htear]
    exact Or.inr (drops_teardown hs hk)
  · exact hv.keeps_or_drops hs hk

theorem Served.inbox (hv : Served cfg now fd p p') : p'.inbox = p.inbox := by
  obtain ⟨q, hq, hend⟩ := hv
  have hinbox : q.inbox = p.inbox := by
    obtain ⟨c, s, rfl⟩ := hq.stored
    exact inbox_touch cfg now p fd
  rcases hend with rfl | ⟨interest, rfl⟩
  · rw [inbox_teardown, hinbox]
  · exact hinbox

theorem inbox_dispatch (h : Handler) (cfg : Config) (now : Nat) {e : Event}
    (he : e.fd ≠ p.worker.wakeupFd) (calls : Calls) :
    (p.dispatch h cfg now e calls).place.inbox = p.inbox := by
  rcases dispatch_cases h cfg now p e calls with ⟨hw, -⟩ | hsame | ⟨-, htear | hv⟩
  · exact absurd hw he
  · rw [hsame]
  · rw [htear, inbox_teardown]
  · exact hv.inbox

theorem inbox_adopt (cfg : Config) (now : Nat) (p : Workplace) (s : Pending)
    (faults : AdoptFaults) : (p.adopt cfg now s faults).inbox = p.inbox := by
  rcases adopt_cases cfg now p s faults with he | ⟨-, he⟩
  · rw [he, release]
  · rw [he]

def Receives (p p' : Workplace) : Prop :=
  p'.held = p.held + 1 ∧ p'.shared.counters.tally = p.shared.counters.tally ∨
    p'.held = p.held ∧ p'.shared.counters.tally = p.shared.counters.closed.tally

theorem receives_adopt (hs : p.worker.InStep idle) (cfg : Config) (now : Nat) (s : Pending)
    (faults : AdoptFaults) : p.Receives (p.adopt cfg now s faults) := by
  rcases adopt_cases cfg now p s faults with he | ⟨hn, he⟩
  · rw [he]
    exact Or.inr ⟨rfl, rfl⟩
  · rw [he]
    refine Or.inl ⟨?_, rfl⟩
    have hk : s.fd ∉ p.worker.connections.keys := fun hk => hn ((hs.watched _).mpr (Or.inr hk))
    exact congrArg (p.inbox.size + ·) (Table.size_put_of_not_mem hk)

end Workplace

def WorkerStage.Leaves (keys : List Fd) : WorkerStage → Prop
  | .closing fds => keys = fds
  | .resetting | .emptying | .releasing _ | .left => keys = []
  | .looking | .expiring _ | .waiting | .serving _ | .taking _ | .adopting _ _ => True

structure Station.InOrder (idle : Option Nat) (s : Station) : Prop where
  inStep : s.worker.InStep idle
  leaves : s.stage.Leaves s.worker.connections.keys

namespace Desk

variable {h : Handler} {cfg : Config} {raised : Bool} {r : WorkerReply} {d d' : Desk}

theorem load_station (d : Desk) :
    d.station.load = d.station.inHand.length + d.place.held :=
  Nat.add_assoc _ _ _

def Balanced (d d' : Desk) : Prop :=
  d'.station.load = d.station.load ∧
      d'.place.shared.counters.tally = d.place.shared.counters.tally ∨
    d'.station.load + 1 = d.station.load ∧
      d'.place.shared.counters.tally = d.place.shared.counters.closed.tally

theorem Balanced.load_le (hb : d.Balanced d') :
    d'.station.load ≤ d.station.load ∧ d.station.load ≤ d'.station.load + 1 := by
  rcases hb with ⟨hl, -⟩ | ⟨hl, -⟩ <;> omega

theorem Balanced.taken_in (hb : d.Balanced d') :
    d'.place.shared.counters.accepted = d.place.shared.counters.accepted ∧
      d'.place.shared.counters.rejected = d.place.shared.counters.rejected := by
  rcases hb with ⟨-, ht⟩ | ⟨-, ht⟩ <;>
    exact ⟨congrArg (fun t => t.1) ht, congrArg (fun t => t.2.2) ht⟩

theorem Balanced.toNat_active (hb : d.Balanced d')
    (hle : d.station.load ≤ d.place.shared.counters.active.toNat + d'.station.load) :
    d'.place.shared.counters.active.toNat + d.station.load =
      d.place.shared.counters.active.toNat + d'.station.load := by
  rcases hb with ⟨hl, ht⟩ | ⟨hl, ht⟩
  · have hactive : d'.place.shared.counters.active = d.place.shared.counters.active :=
      congrArg (fun t => t.2.1) ht
    rw [hactive, hl]
  · have hactive : d'.place.shared.counters.active = d.place.shared.counters.active - 1 :=
      congrArg (fun t => t.2.1) ht
    have hone : 1 ≤ d.place.shared.counters.active.toNat := by omega
    have hsub : (d.place.shared.counters.active - 1).toNat =
        d.place.shared.counters.active.toNat - 1 :=
      UInt64.toNat_sub_of_le _ 1 (UInt64.le_iff_toNat_le.mpr hone)
    rw [hactive, hsub]
    omega

theorem balanced_of_keeps (hh : d'.station.inHand = d.station.inHand) (hk : d.place.Keeps d'.place) :
    d.Balanced d' := by
  refine Or.inl ⟨?_, hk.2⟩
  rw [load_station, load_station, hh, hk.1]

theorem balanced_of_drops (hh : d'.station.inHand = d.station.inHand) (hk : d.place.Drops d'.place) :
    d.Balanced d' := by
  refine Or.inr ⟨?_, hk.2⟩
  rw [load_station, load_station, hh, Nat.add_assoc, hk.1]

theorem balanced_of_receives {s : Pending} (hh : d.station.inHand = s :: d'.station.inHand)
    (hr : d.place.Receives d'.place) : d.Balanced d' := by
  have hload : d.station.load = d'.station.inHand.length + 1 + d.place.held := by
    rw [load_station, hh, List.length_cons]
  rcases hr with ⟨hheld, ht⟩ | ⟨hheld, ht⟩
  · refine Or.inl ⟨?_, ht⟩
    rw [hload, load_station, hheld, Nat.add_assoc, Nat.add_comm 1]
  · refine Or.inr ⟨?_, ht⟩
    rw [hload, load_station, hheld, Nat.add_right_comm]

theorem inOrder_and_balanced_of_stage {idle : Option Nat} {stage stage' : WorkerStage}
    {p : Workplace} (ho : (⟨stage, p⟩ : Desk).station.InOrder idle)
    (hl : stage'.Leaves p.worker.connections.keys)
    (hh : (⟨stage', p⟩ : Desk).station.inHand = (⟨stage, p⟩ : Desk).station.inHand) :
    (⟨stage', p⟩ : Desk).station.InOrder idle ∧ (⟨stage, p⟩ : Desk).Balanced ⟨stage', p⟩ :=
  ⟨⟨ho.inStep, hl⟩, balanced_of_keeps hh ⟨rfl, rfl⟩⟩

theorem balanced_take {stage stage' : WorkerStage} {p : Workplace}
    (hh : (⟨stage, p⟩ : Desk).station.inHand = [])
    (hh' : (⟨stage', { p with inbox := p.inbox.take.2 }⟩ : Desk).station.inHand = p.inbox.queue) :
    (⟨stage, p⟩ : Desk).Balanced ⟨stage', { p with inbox := p.inbox.take.2 }⟩ := by
  refine Or.inl ⟨?_, rfl⟩
  rw [load_station, load_station, hh, hh', Workplace.held, Workplace.held]
  simp only [Inbox.take, Inbox.size, List.length_nil, Nat.zero_add]

theorem move_inOrder_and_balanced (h : Handler) (raised : Bool) (r : WorkerReply)
    (ho : d.station.InOrder cfg.idleTimeout) :
    (d.move h cfg raised r).station.InOrder cfg.idleTimeout ∧ d.Balanced (d.move h cfg raised r) := by
  obtain ⟨stage, p⟩ := d
  have hs : p.worker.InStep cfg.idleTimeout := ho.inStep
  have hl : stage.Leaves p.worker.connections.keys := ho.leaves
  cases stage with
  | looking =>
    rw [move]
    split
    · exact inOrder_and_balanced_of_stage ho rfl rfl
    · exact inOrder_and_balanced_of_stage ho trivial rfl
  | expiring now =>
    rw [move]
    split
    · rename_i e he
      have hk := Workplace.mem_keys_of_dueRoot? hs he
      exact ⟨⟨Workplace.inStep_teardown hs hk, trivial⟩,
        balanced_of_drops rfl (Workplace.drops_teardown hs hk)⟩
    · exact inOrder_and_balanced_of_stage ho trivial rfl
  | waiting =>
    rw [move]
    split
    · exact inOrder_and_balanced_of_stage ho trivial rfl
    · exact inOrder_and_balanced_of_stage ho rfl rfl
  | serving events =>
    cases events with
    | nil => exact inOrder_and_balanced_of_stage ho trivial rfl
    | cons e events =>
      rw [move]
      split
      · split
        · exact inOrder_and_balanced_of_stage ho trivial rfl
        · exact ⟨⟨hs, trivial⟩, balanced_of_keeps rfl ⟨rfl, rfl⟩⟩
      · rename_i hw
        refine ⟨⟨Workplace.inStep_dispatch hs h r.now e r.calls, trivial⟩, ?_⟩
        rcases Workplace.dispatch_keeps_or_drops hs h cfg r.now hw r.calls with hk | hk
        · exact balanced_of_keeps rfl hk
        · exact balanced_of_drops rfl hk
  | taking events => exact ⟨⟨hs, trivial⟩, balanced_take rfl rfl⟩
  | adopting batch events =>
    cases batch with
    | nil => exact inOrder_and_balanced_of_stage ho trivial rfl
    | cons s batch =>
      rw [move]
      refine ⟨⟨Workplace.inStep_adopt hs r.now s _, trivial⟩, ?_⟩
      exact balanced_of_receives rfl (Workplace.receives_adopt hs cfg r.now s _)
  | closing fds =>
    cases fds with
    | nil => exact inOrder_and_balanced_of_stage ho hl rfl
    | cons fd fds =>
      have hk : fd ∈ p.worker.connections.keys := hl ▸ List.mem_cons_self
      -- connections are closed in the order of the table, of which `fds` is what is left
      refine ⟨⟨Workplace.inStep_teardown hs hk, ?_⟩,
        balanced_of_drops rfl (Workplace.drops_teardown hs hk)⟩
      show (p.teardown fd).worker.connections.keys = fds
      rw [Workplace.connections_teardown, Table.keys_erase_of_nodup hs.nodup, hl,
        List.erase_cons_head]
  | resetting =>
    rw [move]
    split
    · exact inOrder_and_balanced_of_stage ho hl rfl
    · exact ⟨⟨hs, hl⟩, balanced_of_keeps rfl ⟨rfl, rfl⟩⟩
  | emptying => exact ⟨⟨hs, hl⟩, balanced_take rfl rfl⟩
  | releasing batch =>
    cases batch with
    | nil => exact inOrder_and_balanced_of_stage ho hl rfl
    | cons s batch => exact ⟨⟨hs, hl⟩, balanced_of_receives rfl (Or.inr ⟨rfl, rfl⟩)⟩
  | left => exact inOrder_and_balanced_of_stage ho hl rfl

theorem queue_move (h : Handler) (cfg : Config) (raised : Bool) (r : WorkerReply) (d : Desk) :
    (d.move h cfg raised r).place.inbox.queue =
      match d.stage with
      | .taking _ | .emptying => []
      | _ => d.place.inbox.queue := by
  obtain ⟨stage, p⟩ := d
  cases stage with
  | looking =>
    rw [move]
    split <;> rfl
  | expiring now =>
    rw [move]
    split
    · exact congrArg Inbox.queue (Workplace.inbox_teardown p _)
    · rfl
  | waiting =>
    rw [move]
    split <;> rfl
  | serving events =>
    cases events with
    | nil => rfl
    | cons e events =>
      rw [move]
      split
      · split <;> rfl
      · rename_i hw
        exact congrArg Inbox.queue (Workplace.inbox_dispatch h cfg r.now hw r.calls)
  | adopting batch events =>
    cases batch with
    | nil => rfl
    | cons s batch => exact congrArg Inbox.queue (Workplace.inbox_adopt cfg r.now p s _)
  | closing fds =>
    cases fds with
    | nil => rfl
    | cons fd fds => exact congrArg Inbox.queue (Workplace.inbox_teardown p fd)
  | resetting =>
    rw [move]
    split <;> rfl
  | releasing batch => cases batch <;> rfl
  | taking events => rfl
  | emptying => rfl
  | left => rfl

theorem mem_queue_move {a : Pending} (ha : a ∈ (d.move h cfg raised r).place.inbox.queue) :
    a ∈ d.place.inbox.queue := by
  rw [queue_move] at ha
  split at ha
  · cases ha
  · cases ha
  · exact ha

end Desk
end EventHttp
