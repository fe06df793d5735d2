import EventHttp.Proofs.Connection.Awaiting
import EventHttp.Proofs.Polling.Waiting
import EventHttp.Proofs.Worker.InStep

/-! A connection is watched for what it waits for.  Serving it arms it again for what it
waits for next, and touches no other connection of its worker; so a batch of events, each
told before the first of them was served, still fits the connections when their turn comes. -/

namespace EventHttp

namespace Config

inductive Arms (cfg : Config) (c : Connection) : Interest → Prop
  | reading (h : c.Awaits .read) : Arms cfg c (cfg.connectionInterest ||| .readable)
  | writing (h : c.Awaits .write) : Arms cfg c (cfg.connectionInterest ||| .writable)

/-- A connection is watched for what it has to do, bit by bit. -/
structure ArmsFor (cfg : Config) (c : Connection) (interest : Interest) : Prop where
  interest_eq : interest =
    cfg.connectionInterest ||| if 0 < c.pendingWrite then .writable else .readable
  one : interest.contains .readable = !interest.contains .writable
  oneShot : interest.contains .oneShot = true
  peerHangup : interest.contains .peerHangup = true
  writing : interest.contains .writable = true ↔ 0 < c.pendingWrite
  reading : interest.contains .readable = true →
    c.outgoing.isEmpty = true ∧ c.parser.parse c.input = (c.parser, .ok .needMoreData, c.input)

variable {cfg : Config} {c : Connection} {interest : Interest}

theorem arms_of_awaits {next : Next} {wanted : Interest} (ha : c.Awaits next)
    (hw : wanted ∈ next.interest?) : cfg.Arms c (cfg.connectionInterest ||| wanted) := by
  cases next with
  | read =>
    cases hw
    exact .reading ha
  | write =>
    cases hw
    exact .writing ha
  | close => cases hw

theorem contains_watch (cfg : Config) (writing : Bool) :
    let interest := cfg.connectionInterest ||| if writing then .writable else .readable
    interest.contains .readable = !writing ∧ interest.contains .writable = writing ∧
      interest.contains .oneShot = true ∧ interest.contains .peerHangup = true := by
  unfold connectionInterest
  generalize cfg.edgeTriggered = edge
  revert edge writing
  decide

theorem armsFor_watch (cfg : Config) (writing : Bool) (hw : writing = true ↔ 0 < c.pendingWrite)
    (hr : writing = false → c.outgoing.isEmpty = true ∧ c.Stalled) :
    cfg.ArmsFor c (cfg.connectionInterest ||| if writing then .writable else .readable) := by
  obtain ⟨hreadable, hwritable, honeShot, hpeer⟩ := cfg.contains_watch writing
  refine ⟨by simp only [hw], by rw [hreadable, hwritable], honeShot, hpeer, ?_, fun ht => hr ?_⟩
  · rw [hwritable, hw]
  · rwa [hreadable, Bool.not_eq_true'] at ht

theorem Arms.armsFor (h : cfg.Arms c interest) : cfg.ArmsFor c interest := by
  cases h with
  | reading ha =>
    obtain ⟨hb, hstalled⟩ := ha.reading rfl
    have hempty := (Outgoing.isEmpty_iff ha.head).mpr hb
    have hnone : c.pendingWrite = 0 := beq_iff_eq.mp hempty
    exact cfg.armsFor_watch false (by rw [hnone]; decide) fun _ => ⟨hempty, hstalled⟩
  | writing ha =>
    have hpos : 0 < c.pendingWrite := by
      rw [Connection.pendingWrite, ← Outgoing.length_bytes ha.head]
      exact List.length_pos_iff.mpr (ha.writing rfl)
    exact cfg.armsFor_watch true (iff_of_true rfl hpos) nofun

theorem isReadable_told_writing (cfg : Config) (fd : Fd) (bits : UInt32) :
    (⟨fd, Poller.told (cfg.connectionInterest ||| .writable) bits⟩ : Event).isReadable = false := by
  have hmask : ((cfg.connectionInterest ||| .writable).bits ||| Event.errorBit |||
      Event.hangupBit) &&& Interest.readable.bits = 0 := by
    unfold connectionInterest
    generalize cfg.edgeTriggered = edge
    revert edge
    decide
  rw [Event.isReadable, Poller.told, UInt32.and_assoc, hmask, UInt32.and_zero]
  rfl

end Config

namespace Worker

def slot (w : Worker) (fd : Fd) : Option Interest × Option Connection :=
  (w.watches.get? fd, w.connections.get? fd)

def ArmedAt (cfg : Config) (w : Worker) (fd : Fd) : Prop :=
  ∀ c, w.connections.get? fd = some c →
    ∃ interest, w.watches.get? fd = some interest ∧ cfg.Arms c interest

variable {cfg : Config} {w w' : Worker} {fd g : Fd}

theorem ArmedAt.congr (h : w.ArmedAt cfg fd) (hs : w'.slot fd = w.slot fd) : w'.ArmedAt cfg fd := by
  obtain ⟨hw, hc⟩ := Prod.mk.inj hs
  intro c hget
  rw [hc] at hget
  rw [hw]
  exact h c hget

theorem armedAt_of_none (h : w.connections.get? fd = none) : w.ArmedAt cfg fd := by
  intro c hc
  rw [h] at hc
  cases hc

theorem slot_enrol (cfg : Config) (now : Nat) (w : Worker) (s : Pending) (g : Fd) :
    (w.enrol cfg now s).slot g =
      if g = s.fd then (some (cfg.connectionInterest ||| .readable), some (.ofPeer s.peer))
      else w.slot g := by
  rw [slot, enrol, Table.get?_put, Table.get?_put]
  split <;> rfl

end Worker

namespace Workplace

variable {h : Handler} {cfg : Config} {p : Workplace} {fd g : Fd} {now : Nat} {c : Connection}

theorem slot_teardown (p : Workplace) (fd g : Fd) :
    (p.teardown fd).worker.slot g = if g = fd then (none, none) else p.worker.slot g := by
  have hwatches : (p.teardown fd).worker.watches.get? g =
      if g = fd then none else p.worker.watches.get? g := by
    rw [worker_teardown]
    dsimp only [Watches.deregister]
    split
    · exact Table.get?_erase p.worker.watches fd g
    · rename_i hc
      rw [Table.contains_iff_mem_keys] at hc
      split
      · rename_i he
        rw [he]
        exact Table.get?_eq_none_of_not_mem_keys hc
      · rfl
  rw [Worker.slot, hwatches, connections_teardown, Table.get?_erase]
  split <;> rfl

theorem slot_touch (cfg : Config) (now : Nat) (p : Workplace) (fd g : Fd) :
    (p.touch cfg now fd).worker.slot g = p.worker.slot g := by
  unfold touch
  split <;> rfl

theorem requests_teardown (p : Workplace) (fd : Fd) :
    (p.teardown fd).shared.counters.requests = p.shared.counters.requests := by
  unfold teardown
  dsimp only
  split <;> rfl

theorem slot_store_of_ne (hne : g ≠ fd) (c : Connection) (s : Shared) :
    (p.store fd c s).worker.slot g = p.worker.slot g := by
  rw [Worker.slot, store, Table.get?_put, if_neg hne]
  rfl

theorem slot_served_of_ne {p' : Workplace} (hv : Served cfg now fd p p') (hne : g ≠ fd) :
    p'.worker.slot g = p.worker.slot g := by
  obtain ⟨q, hq, hend⟩ := hv
  obtain ⟨c, s, rfl⟩ := hq.stored
  have hstored := (slot_store_of_ne hne c s).trans (slot_touch cfg now p fd g)
  rcases hend with rfl | ⟨interest, rfl⟩
  · rw [slot_teardown, if_neg hne, hstored]
  · rw [← hstored, Worker.slot, Table.get?_put, if_neg hne]
    rfl

theorem slot_dispatch_of_ne {e : Event} {calls : Calls} (hw : e.fd ≠ p.worker.wakeupFd)
    (hne : g ≠ e.fd) :
    (p.dispatch h cfg now e calls).place.worker.slot g = p.worker.slot g := by
  rcases dispatch_cases h cfg now p e calls with ⟨he, -⟩ | hsame | ⟨-, htear | hv⟩
  · exact absurd he hw
  · rw [hsame]
  · rw [htear, slot_teardown, if_neg hne]
  · exact slot_served_of_ne hv hne

theorem slot_conclude_of_ne (hne : g ≠ fd) (w : Written) (fault : Option IoError) :
    (p.conclude cfg fd w fault).worker.slot g = p.worker.slot g := by
  rcases conclude_cases cfg p fd w fault with he | ⟨next, -, wanted, -, he⟩
  · rw [he, slot_teardown, if_neg hne]
    exact slot_store_of_ne hne w.connection w.shared
  · rw [he, ← slot_store_of_ne (p := p) hne w.connection w.shared, Worker.slot, Table.get?_put,
      if_neg hne]
    rfl

theorem conclude_self (cfg : Config) (p : Workplace) (fd : Fd) (w : Written) (fault : Option IoError) :
    ((p.conclude cfg fd w fault).worker.connections.get? fd = none ∨
      (p.conclude cfg fd w fault).worker.connections.get? fd = some w.connection ∧
        ∃ next, w.outcome = .ok next ∧ ∃ wanted ∈ next.interest?,
          (p.conclude cfg fd w fault).worker.watches.get? fd =
            some (cfg.connectionInterest ||| wanted)) ∧
      (p.conclude cfg fd w fault).shared.counters.requests = w.shared.counters.requests := by
  rcases conclude_cases cfg p fd w fault with he | ⟨next, ho, wanted, hwanted, he⟩
  · rw [he]
    have hslot := slot_teardown (p.store fd w.connection w.shared) fd fd
    rw [if_pos rfl] at hslot
    exact ⟨Or.inl (congrArg Prod.snd hslot), requests_teardown _ fd⟩
  · rw [he]
    refine ⟨Or.inr ⟨?_, next, ho, wanted, hwanted, ?_⟩, rfl⟩
    · exact (Table.get?_put _ _ _ _).trans (if_pos rfl)
    · exact (Table.get?_put _ _ _ _).trans (if_pos rfl)

theorem dispatch_connection {e : Event} (h : Handler) (cfg : Config) (now : Nat) (calls : Calls)
    (hne : e.fd ≠ p.worker.wakeupFd) (hc : p.worker.connections.get? e.fd = some c)
    (ha : p.worker.ArmedAt cfg e.fd) (ht : Poller.Tells p.worker.watches e) :
    p.dispatch h cfg now e calls = ⟨p.teardown e.fd, []⟩ ∨
      p.dispatch h cfg now e calls = ⟨p, []⟩ ∨
      ∃ w, Connection.Serves c.outgoing.bytes p.shared.counters.requests w ∧
        p.dispatch h cfg now e calls =
          ⟨(p.touch cfg now e.fd).conclude cfg e.fd w calls.rearm, w.sent⟩ := by
  have hcontains : p.worker.connections.contains e.fd = true :=
    Table.contains_iff_mem_keys.mpr (Table.mem_keys_of_get? hc)
  obtain ⟨interest, hget, harms⟩ := ha c hc
  obtain ⟨told, bits, htold, hmask⟩ := ht
  rw [hget] at htold
  cases htold
  rw [dispatch, if_neg hne, hcontains, Bool.not_true, if_neg Bool.false_ne_true]
  split
  · exact Or.inl rfl
  · split
    · rename_i hreadable
      cases harms with
      | reading hawaits =>
        have hserves := hawaits.serves_take h p.shared calls.reads
        refine Or.inr (Or.inr ⟨_, hserves, ?_⟩)
        rw [onReadable_eq h cfg now calls hc, Connection.sent_take]
      | writing hawaits =>
        -- a connection that waits for writing is not told that it can be read
        have hnot := cfg.isReadable_told_writing e.fd bits
        rw [← hmask] at hnot
        rw [hnot] at hreadable
        cases hreadable
    · split
      · obtain ⟨next, hawaits⟩ : ∃ next, c.Awaits next := by
          cases harms with
          | reading hawaits | writing hawaits => exact ⟨_, hawaits⟩
        have hserves := hawaits.serves_write h p.shared calls.writes
        exact Or.inr (Or.inr ⟨_, hserves, onWritable_eq h cfg now calls hc⟩)
      · exact Or.inr (Or.inl rfl)

end Workplace
end EventHttp
