import EventHttp.Proofs.Crew.Accounting
import EventHttp.Proofs.Worker.Shift
import Mathlib.Logic.Function.Basic

/-! The kernel gives a socket any descriptor that no other one has, a descriptor that was just
closed included.  Still no two sockets of a server are mixed up: each descriptor has one holder,
and an event is served for the connection that it was told of. -/

namespace EventHttp

namespace WorkerStage

def pending : WorkerStage → List Event
  | serving events | taking events | adopting _ events => events
  | looking | expiring _ | waiting | closing _ | resetting | emptying | releasing _ | left => []

end WorkerStage

namespace AcceptorStage

def hand : AcceptorStage → List Pending
  | checking s | refusing s | admitting s | opening _ s | handing _ s => [s]
  | looking | waiting | accepting | waking _ | left => []

theorem hand_next (cfg : Config) : (next cfg).hand = [] := by
  unfold next
  split <;> rfl

theorem hand_afterFault (e : IoError) : (afterFault e).hand = [] := by
  unfold afterFault
  split <;> rfl

end AcceptorStage

def Station.fds (s : Station) : List Fd :=
  (s.inbox.queue ++ s.inHand).map (·.fd) ++ s.worker.connections.keys

namespace Workplace

variable {h : Handler} {cfg : Config} {idle : Option Nat} {p p' : Workplace} {fd g : Fd}
  {now : Nat} {e : Event} {calls : Calls}

theorem mem_keys_of_dispatch (hw : e.fd ≠ p.worker.wakeupFd)
    (hg : g ∈ (p.dispatch h cfg now e calls).place.worker.connections.keys) :
    g ∈ p.worker.connections.keys := by
  by_cases hne : g = e.fd
  · rcases dispatch_cases h cfg now p e calls with ⟨he, -⟩ | hsame | ⟨hk, -⟩
    · exact absurd he hw
    · rwa [hsame] at hg
    · exact hne ▸ hk
  · obtain ⟨c, hc⟩ := exists_get? hg
    have hslot : (p.dispatch h cfg now e calls).place.worker.slot g = p.worker.slot g :=
      slot_dispatch_of_ne hw hne
    exact Table.mem_keys_of_get? ((congrArg Prod.snd hslot).symm.trans hc)

end Workplace

namespace Desk

variable {h : Handler} {cfg : Config} {raised : Bool} {r : WorkerReply} {d d' : Desk}

theorem fds_subperm_of_keys (hq : d'.place.inbox.queue = d.place.inbox.queue)
    (hh : d'.station.inHand = d.station.inHand) (hn : d'.place.worker.connections.keys.Nodup)
    (hk : d'.place.worker.connections.keys ⊆ d.place.worker.connections.keys) :
    List.Subperm d'.station.fds d.station.fds := by
  have hqueue : d'.station.inbox.queue = d.station.inbox.queue := hq
  rw [Station.fds, Station.fds, hqueue, hh]
  exact (List.subperm_append_left _).mpr (hn.subperm hk)

theorem fds_subperm_adopt {p : Workplace} {s : Pending} {batch : List Pending}
    {events : List Event} {now : Nat} {faults : AdoptFaults}
    (hs : p.worker.InStep cfg.idleTimeout) :
    List.Subperm (⟨.adopting batch events, p.adopt cfg now s faults⟩ : Desk).station.fds
      (⟨.adopting (s :: batch) events, p⟩ : Desk).station.fds := by
  have hkeys : (p.adopt cfg now s faults).worker.connections.keys = p.worker.connections.keys ∨
      (p.adopt cfg now s faults).worker.connections.keys = p.worker.connections.keys ++ [s.fd] := by
    rcases Workplace.adopt_cases cfg now p s faults with he | ⟨hn, he⟩
    · rw [he]
      exact Or.inl rfl
    · rw [he]
      refine Or.inr (Table.keys_put_of_not_mem fun hk => hn ?_)
      exact (hs.watched _).mpr (Or.inr hk)
  have hqueue := congrArg Inbox.queue (Workplace.inbox_adopt cfg now p s faults)
  change List.Subperm (((p.adopt cfg now s faults).inbox.queue ++ batch).map (·.fd) ++
    (p.adopt cfg now s faults).worker.connections.keys)
    ((p.inbox.queue ++ s :: batch).map (·.fd) ++ p.worker.connections.keys)
  rw [hqueue, List.map_append, List.map_append, List.map_cons]
  rcases hkeys with hk | hk
  · rw [hk]
    refine List.Sublist.subperm ?_
    exact ((List.Sublist.refl _).append (List.sublist_cons_self _ _)).append (List.Sublist.refl _)
  · rw [hk]
    refine List.Perm.subperm ?_
    simp only [List.append_assoc, List.cons_append]
    refine List.Perm.append_left _ ?_
    rw [← List.append_assoc]
    exact List.perm_append_singleton _ _

theorem fds_subperm_teardown {stage stage' : WorkerStage} {p : Workplace} (fd : Fd)
    (hs : p.worker.InStep cfg.idleTimeout)
    (hh : (⟨stage', p.teardown fd⟩ : Desk).station.inHand = (⟨stage, p⟩ : Desk).station.inHand) :
    List.Subperm (⟨stage', p.teardown fd⟩ : Desk).station.fds (⟨stage, p⟩ : Desk).station.fds := by
  have hkeys := Workplace.connections_teardown p fd
  refine fds_subperm_of_keys (congrArg Inbox.queue (Workplace.inbox_teardown p fd)) hh ?_ ?_
  · exact (congrArg Table.keys hkeys) ▸ Table.nodup_keys_erase hs.nodup
  · exact fun g hg => (Table.mem_keys_erase_iff.mp (congrArg Table.keys hkeys ▸ hg)).1

theorem fds_take {stage stage' : WorkerStage} {p : Workplace}
    (hh : (⟨stage, p⟩ : Desk).station.inHand = [])
    (hh' : (⟨stage', { p with inbox := p.inbox.take.2 }⟩ : Desk).station.inHand = p.inbox.queue) :
    (⟨stage', { p with inbox := p.inbox.take.2 }⟩ : Desk).station.fds =
      (⟨stage, p⟩ : Desk).station.fds := by
  rw [Station.fds, Station.fds, hh, hh', List.append_nil]
  rfl

theorem fds_move_subperm (h : Handler) (raised : Bool) (r : WorkerReply)
    (ho : d.station.InOrder cfg.idleTimeout) :
    List.Subperm (d.move h cfg raised r).station.fds d.station.fds := by
  obtain ⟨stage, p⟩ := d
  have hs : p.worker.InStep cfg.idleTimeout := ho.inStep
  cases stage with
  | looking =>
    rw [move]
    split <;> exact List.Subperm.refl _
  | expiring now =>
    rw [move]
    split
    · exact fds_subperm_teardown _ hs rfl
    · exact List.Subperm.refl _
  | waiting =>
    rw [move]
    split <;> exact List.Subperm.refl _
  | serving events =>
    cases events with
    | nil => exact List.Subperm.refl _
    | cons e events =>
      rw [move]
      split
      · split <;> exact List.Subperm.refl _
      · rename_i hw
        have hqueue := Workplace.inbox_dispatch h cfg r.now hw r.calls
        exact fds_subperm_of_keys (congrArg Inbox.queue hqueue) rfl
          (Workplace.inStep_dispatch hs h r.now e r.calls).nodup
          fun _ hg => Workplace.mem_keys_of_dispatch hw hg
  | taking events => exact (List.Perm.of_eq (fds_take rfl rfl)).subperm
  | adopting batch events =>
    cases batch with
    | nil => exact List.Subperm.refl _
    | cons s batch => exact fds_subperm_adopt hs
  | closing fds =>
    cases fds with
    | nil => exact List.Subperm.refl _
    | cons fd fds => exact fds_subperm_teardown fd hs rfl
  | resetting =>
    rw [move]
    split <;> exact List.Subperm.refl _
  | emptying => exact (List.Perm.of_eq (fds_take rfl rfl)).subperm
  | releasing batch =>
    cases batch with
    | nil => exact List.Subperm.refl _
    | cons s batch =>
      refine List.Sublist.subperm (List.Sublist.append ?_ (List.Sublist.refl _))
      exact ((List.Sublist.refl _).append (List.sublist_cons_self s batch)).map _
  | left => exact List.Subperm.refl _

def told? (d : Desk) (r : WorkerReply) : Option (List Event) :=
  match d.stage, r.wait with
  | .waiting, .ok events => some events
  | _, _ => none

theorem move_of_told {events : List Event} (ht : d.told? r = some events) :
    d.move h cfg raised r = ⟨.serving events, d.place⟩ := by
  obtain ⟨stage, p⟩ := d
  unfold told? at ht
  split at ht
  · rename_i hstage hwait
    obtain rfl : stage = .waiting := hstage
    cases ht
    rw [move, hwait]
  · cases ht

structure Leaves (d d' : Desk) : Prop where
  suffix : d'.stage.pending <:+ d.stage.pending
  slot : ∀ e ∈ d'.stage.pending, d'.place.worker.slot e.fd = d.place.worker.slot e.fd

theorem leaves_of_pending {stage stage' : WorkerStage} {p p' : Workplace}
    (hp : stage'.pending = stage.pending) (hw : p'.worker = p.worker) :
    Leaves ⟨stage, p⟩ ⟨stage', p'⟩ :=
  ⟨hp ▸ List.suffix_rfl, fun _ _ => by rw [hw]⟩

theorem leaves_of_nil {stage stage' : WorkerStage} {p p' : Workplace}
    (hp : stage'.pending = []) : Leaves ⟨stage, p⟩ ⟨stage', p'⟩ :=
  ⟨hp ▸ List.nil_suffix, fun _ he => absurd (hp ▸ he) List.not_mem_nil⟩

theorem leaves_move (h : Handler) (cfg : Config) (raised : Bool) (r : WorkerReply)
    (hd : (d.stage.pending.map (·.fd)).Nodup)
    (hw : ∀ e ∈ d.stage.pending, e.fd ∈ d.place.worker.watches.keys) (ht : d.told? r = none) :
    d.Leaves (d.move h cfg raised r) := by
  obtain ⟨stage, p⟩ := d
  cases stage with
  | looking =>
    rw [move]
    split <;> exact leaves_of_nil rfl
  | expiring now =>
    rw [move]
    split <;> exact leaves_of_nil rfl
  | waiting =>
    rw [move]
    split
    · rename_i he
      simp [told?, he] at ht
    · exact leaves_of_nil rfl
  | serving events =>
    cases events with
    | nil => exact leaves_of_nil rfl
    | cons e events =>
      rw [move]
      split
      · split <;> exact ⟨List.suffix_cons e events, fun _ _ => rfl⟩
      · rename_i hne
        refine ⟨List.suffix_cons e events, fun e' he' => ?_⟩
        -- a wait tells of each descriptor once, so none of the events left is for this one
        have hother : e'.fd ≠ e.fd := fun he =>
          (List.nodup_cons.mp hd).1 (List.mem_map.mpr ⟨e', he', he⟩)
        exact Workplace.slot_dispatch_of_ne hne hother
  | taking events => exact leaves_of_pending rfl rfl
  | adopting batch events =>
    cases batch with
    | nil => exact leaves_of_pending rfl rfl
    | cons s batch =>
      refine ⟨List.suffix_rfl, fun e he => ?_⟩
      obtain ⟨interest, hwatched⟩ := Workplace.exists_get? (hw e he)
      exact Workplace.slot_adopt_of_watched cfg r.now hwatched s _
  | closing fds => cases fds <;> exact leaves_of_nil rfl
  | resetting =>
    rw [move]
    split <;> exact leaves_of_nil rfl
  | emptying => exact leaves_of_nil rfl
  | releasing batch => cases batch <;> exact leaves_of_nil rfl
  | left => exact leaves_of_nil rfl

end Desk

theorem flatMap_set_subperm {α β : Type} {l : List α} {f : α → List β} {i : Nat} {a a' : α}
    {extra : List β} (hi : l[i]? = some a) (h : List.Subperm (f a') (extra ++ f a)) :
    List.Subperm ((l.set i a').flatMap f) (extra ++ l.flatMap f) := by
  induction l generalizing i with
  | nil => cases hi
  | cons b l ih =>
    cases i with
    | zero =>
      cases hi
      rw [List.set_cons_zero, List.flatMap_cons, List.flatMap_cons, ← List.append_assoc]
      exact (List.subperm_append_right _).mpr h
    | succ i =>
      rw [List.set_cons_succ, List.flatMap_cons, List.flatMap_cons]
      refine ((List.subperm_append_left _).mpr (ih hi)).trans (List.Perm.subperm ?_)
      rw [← List.append_assoc, ← List.append_assoc]
      exact List.perm_append_comm.append_right _

namespace Crew

variable {h : Handler} {cfg : Config} {c : Crew}

def fds (c : Crew) : List Fd :=
  c.acceptor.hand.map (·.fd) ++ c.stations.flatMap Station.fds

def given? (c : Crew) : Move → Option Pending
  | .acceptor r =>
    match c.acceptor, r.accept with
    | .accepting, .accepted s => some s
    | _, _ => none
  | .raise | .wake _ | .worker _ _ => none

def told? (c : Crew) : Move → Option (Nat × Station × List Event)
  | .worker i r =>
    c.stations[i]?.bind fun s => ((s.desk c.shared).told? r).map fun events => (i, s, events)
  | .raise | .wake _ | .acceptor _ => none

/-- What the kernel does not do: it gives no descriptor that a socket still has, and tells of
none twice in one wait, nor of one that is not watched. -/
def Allows (c : Crew) (m : Move) : Prop :=
  (∀ s ∈ c.given? m, s.fd ∉ c.fds) ∧
    ∀ t ∈ c.told? m, (t.2.2.map (·.fd)).Nodup ∧ ∀ e ∈ t.2.2, e.fd ∈ t.2.1.worker.watches.keys

instance (c : Crew) (m : Move) : Decidable (c.Allows m) :=
  inferInstanceAs (Decidable (_ ∧ _))

theorem stations_atInbox_subperm (c : Crew) (i : Nat) {f : Inbox Pending → Inbox Pending}
    (extra : List Pending) (hf : ∀ b, (f b).queue = b.queue ++ extra) :
    List.Subperm ((c.atInbox i f).stations.flatMap Station.fds)
      (extra.map (·.fd) ++ c.stations.flatMap Station.fds) := by
  rcases lt_or_ge i c.stations.length with hi | hi
  · have hget := List.getElem?_eq_getElem hi
    rw [atInbox_of_getElem? hget]
    refine flatMap_set_subperm hget (List.Perm.subperm ?_)
    rw [Station.fds, Station.fds, hf]
    simp only [List.map_append, List.append_assoc]
    exact List.perm_append_comm_assoc _ _ _
  · rw [atInbox_of_length_le hi]
    exact (List.sublist_append_right _ _).subperm

theorem fds_workerMove_subperm (hs : c.Seated cfg) (h : Handler) (i : Nat) (r : WorkerReply) :
    List.Subperm (c.workerMove h cfg i r).fds c.fds := by
  rcases workerMove_cases hs h i r with he | ⟨s, d, hi, hd, -, -, he⟩
  · rw [he]
  · have hstation : List.Subperm d.station.fds ([] ++ s.fds) :=
      hd ▸ Desk.fds_move_subperm h c.raised r (d := s.desk c.shared) (inOrder_of_getElem? hs hi)
    rw [he]
    exact (List.subperm_append_left _).mpr (flatMap_set_subperm hi hstation)

theorem fds_acceptorMove_subperm (cfg : Config) (c : Crew) (r : AcceptorReply) :
    List.Subperm (c.acceptorMove cfg r).fds
      ((c.given? (.acceptor r)).toList.map (·.fd) ++ c.fds) := by
  obtain ⟨shared, raised, turn, acceptor, stations, ledger⟩ := c
  cases acceptor with
  | looking =>
    dsimp only [acceptorMove]
    split <;> exact List.Subperm.refl _
  | waiting =>
    dsimp only [acceptorMove]
    split
    · exact List.Subperm.refl _
    · split <;> exact List.Subperm.refl _
  | accepting =>
    obtain ⟨fault, called, accept⟩ := r
    cases accept with
    | accepted s => exact List.Subperm.refl _
    | failed e =>
      rw [fds, acceptorMove, AcceptorStage.hand_afterFault]
      exact List.Subperm.refl _
  | checking s =>
    dsimp only [acceptorMove]
    split <;> exact List.Subperm.refl _
  | refusing s =>
    rw [fds, acceptorMove, AcceptorStage.hand_next]
    exact (List.sublist_cons_self _ _).subperm
  | admitting s => exact List.Subperm.refl _
  | opening i s => exact List.Subperm.refl _
  | handing i s =>
    exact stations_atInbox_subperm ⟨shared, raised, turn, .handing i s, stations, ledger⟩ i
      (f := (·.enqueue s)) [s] fun _ => rfl
  | waking i =>
    rw [fds, acceptorMove, AcceptorStage.hand_next]
    exact stations_atInbox_subperm ⟨shared, raised, turn, .waking i, stations, ledger⟩ i
      [] fun b => (List.append_nil b.queue).symm
  | left => exact List.Subperm.refl _

theorem fds_step_subperm (hs : c.Seated cfg) (h : Handler) (m : Move) :
    List.Subperm (c.step h cfg m).fds ((c.given? m).toList.map (·.fd) ++ c.fds) := by
  cases m with
  | raise => exact List.Subperm.refl _
  | wake i =>
    exact (List.subperm_append_left _).mpr
      (c.stations_atInbox_subperm i [] fun b => (List.append_nil b.queue).symm)
  | acceptor r => exact fds_acceptorMove_subperm cfg c r
  | worker i r => exact fds_workerMove_subperm hs h i r

theorem nodup_fds_step (hs : c.Seated cfg) (hn : c.fds.Nodup) (h : Handler) {m : Move}
    (hm : c.Allows m) : (c.step h cfg m).fds.Nodup := by
  have hall : ((c.given? m).toList.map (·.fd) ++ c.fds).Nodup := by
    cases hg : c.given? m with
    | none => exact hn
    | some s => exact List.nodup_cons.mpr ⟨hm.1 s hg, hn⟩
  obtain ⟨l, hp, hl⟩ := fds_step_subperm hs h m
  exact hp.nodup_iff.mp (hall.sublist hl)

end Crew

structure Report where
  event : Event
  owner : Nat
  connection : Option Connection

def Worker.report (w : Worker) (owner : Fd → Nat) (e : Event) : Report :=
  ⟨e, owner e.fd, w.connections.get? e.fd⟩

/-- A crew and what the kernel knows of it: how many sockets it has given, to which of them it
gave a descriptor last, and what the last wait of each worker was told.  No thread reads this. -/
structure Hosted where
  crew : Crew
  given : Nat
  owner : Fd → Nat
  told : Nat → List Report

namespace Hosted

def start (cfg : Config) (credentials : Credentials) (wakeups : Nat → Fd) : Hosted :=
  ⟨.start cfg credentials wakeups, 1, fun _ => 0, fun _ => []⟩

def step (h : Handler) (cfg : Config) (k : Hosted) (m : Move) : Hosted :=
  if k.crew.Allows m then
    { crew := k.crew.step h cfg m
      given := k.given + (k.crew.given? m).toList.length
      owner := match k.crew.given? m with
        | some s => Function.update k.owner s.fd k.given
        | none => k.owner
      told := match k.crew.told? m with
        | some (i, s, events) => Function.update k.told i (events.map (s.worker.report k.owner))
        | none => k.told }
  else k

def run (h : Handler) (cfg : Config) (k : Hosted) (moves : List Move) : Hosted :=
  moves.foldl (step h cfg) k

end Hosted

structure Station.Expects (owner : Fd → Nat) (told : List Report) (s : Station) : Prop where
  distinct : (s.stage.pending.map (·.fd)).Nodup
  watched : ∀ e ∈ s.stage.pending, e.fd ∈ s.worker.watches.keys
  told : ∀ e ∈ s.stage.pending, e.fd ∈ s.worker.connections.keys → s.worker.report owner e ∈ told

namespace Station

variable {owner owner' : Fd → Nat} {told : List Report} {s s' : Station}

theorem Expects.congr (he : s.Expects owner told) (hs : s'.stage = s.stage)
    (hw : s'.worker = s.worker) : s'.Expects owner told := by
  obtain ⟨hdistinct, hwatched, htold⟩ := he
  rw [← hs] at hdistinct hwatched htold
  rw [← hw] at hwatched htold
  exact ⟨hdistinct, hwatched, htold⟩

theorem Expects.owner_congr (he : s.Expects owner told)
    (ho : ∀ fd ∈ s.worker.connections.keys, owner' fd = owner fd) : s.Expects owner' told where
  distinct := he.distinct
  watched := he.watched
  told := fun e hm hk => by
    rw [Worker.report, ho e.fd hk]
    exact he.told e hm hk

theorem Expects.leaves {d d' : Desk} (he : d.station.Expects owner told) (hl : d.Leaves d') :
    d'.station.Expects owner told := by
  refine ⟨he.distinct.sublist (hl.suffix.sublist.map _), fun e hm => ?_, fun e hm hk => ?_⟩
  · obtain ⟨interest, hget⟩ := Workplace.exists_get? (he.watched e (hl.suffix.subset hm))
    exact Table.mem_keys_of_get? ((congrArg Prod.fst (hl.slot e hm)).trans hget)
  · have hconnection := congrArg Prod.snd (hl.slot e hm)
    obtain ⟨c, hget⟩ := Workplace.exists_get? hk
    have hbefore : e.fd ∈ d.place.worker.connections.keys :=
      Table.mem_keys_of_get? (hconnection.symm.trans hget)
    have htold := he.told e (hl.suffix.subset hm) hbefore
    rw [Worker.report] at htold ⊢
    exact (congrArg (Report.mk _ _) hconnection) ▸ htold

end Station

namespace Hosted

variable {h : Handler} {cfg : Config} {k : Hosted} {m : Move}

structure Kept (cfg : Config) (k : Hosted) : Prop where
  seated : k.crew.Seated cfg
  distinct : k.crew.fds.Nodup
  expects : ∀ i (s : Station), k.crew.stations[i]? = some s → s.Expects k.owner (k.told i)
  once : ∀ i, ((k.told i).map (·.event.fd)).Nodup
  fresh : ∀ fd, k.owner fd < k.given

theorem kept_start (cfg : Config) (credentials : Credentials) (wakeups : Nat → Fd) :
    (start cfg credentials wakeups).Kept cfg where
  seated := (Crew.kept_start cfg credentials wakeups).seated
  distinct := by
    have hnone : (start cfg credentials wakeups).crew.fds = [] := by
      refine List.flatMap_eq_nil_iff.mpr fun s hs => ?_
      obtain ⟨i, -, rfl⟩ := List.mem_map.mp hs
      rfl
    rw [hnone]
    exact List.nodup_nil
  expects := by
    intro i s hi
    obtain ⟨j, -, rfl⟩ := List.mem_map.mp (List.mem_of_getElem? hi)
    exact ⟨List.nodup_nil, nofun, nofun⟩
  once := fun _ => List.nodup_nil
  fresh := fun _ => Nat.one_pos

theorem owner_step (h : Handler) (cfg : Config) (k : Hosted) (m : Move) :
    ∀ fd ∈ k.crew.fds, (k.step h cfg m).owner fd = k.owner fd := by
  intro fd hfd
  rw [step]
  split
  · rename_i hm
    cases hg : k.crew.given? m with
    | none => rfl
    | some s =>
      refine Function.update_of_ne ?_ _ _
      rintro rfl
      exact hm.1 s hg hfd
  · rfl

theorem fresh_step (hf : ∀ fd, k.owner fd < k.given) (h : Handler) (cfg : Config) (m : Move) :
    ∀ fd, (k.step h cfg m).owner fd < (k.step h cfg m).given := by
  intro fd
  rw [step]
  split
  · cases k.crew.given? m with
    | none => exact hf fd
    | some s =>
      show Function.update k.owner s.fd k.given fd < k.given + 1
      rw [Function.update_apply]
      split
      · exact Nat.lt_succ_self _
      · exact Nat.lt_succ_of_lt (hf fd)
  · exact hf fd

theorem expects_worker (hk : k.Kept cfg) (h : Handler) {i : Nat} {r : WorkerReply}
    (hm : k.crew.Allows (.worker i r)) {s : Station} (hi : k.crew.stations[i]? = some s) :
    ((s.desk k.crew.shared).move h cfg k.crew.raised r).station.Expects k.owner
      ((k.step h cfg (.worker i r)).told i) := by
  have hexpects := hk.expects i s hi
  rw [step, if_pos hm]
  dsimp only
  cases ht : (s.desk k.crew.shared).told? r with
  | none =>
    have hnone : k.crew.told? (.worker i r) = none := by
      simp only [Crew.told?, hi, Option.bind_some, ht, Option.map_none]
    rw [hnone]
    exact hexpects.leaves (Desk.leaves_move h cfg k.crew.raised r hexpects.distinct
      hexpects.watched ht)
  | some events =>
    have hsome : k.crew.told? (.worker i r) = some (i, s, events) := by
      simp only [Crew.told?, hi, Option.bind_some, ht, Option.map_some]
    obtain ⟨hnodup, hwatched⟩ := hm.2 _ hsome
    rw [hsome]
    dsimp only
    rw [Function.update_self, Desk.move_of_told ht]
    exact ⟨hnodup, hwatched, fun e he _ => List.mem_map_of_mem he⟩

theorem crew_step (hm : k.crew.Allows m) : (k.step h cfg m).crew = k.crew.step h cfg m := by
  rw [step, if_pos hm]

theorem told_step_of_none (hm : k.crew.Allows m) (ht : k.crew.told? m = none) :
    (k.step h cfg m).told = k.told := by
  rw [step, if_pos hm, ht]

theorem told_step_worker_of_ne {i j : Nat} {r : WorkerReply} (hne : j ≠ i) :
    (k.step h cfg (.worker i r)).told j = k.told j := by
  rw [step]
  split
  · cases ht : k.crew.told? (.worker i r) with
    | none => rfl
    | some t =>
      obtain ⟨s, -, ht⟩ := Option.bind_eq_some_iff.mp ht
      obtain ⟨events, -, rfl⟩ := Option.map_eq_some_iff.mp ht
      exact Function.update_of_ne hne _ _
  · rfl

theorem owner_step_worker {i : Nat} {r : WorkerReply} :
    (k.step h cfg (.worker i r)).owner = k.owner := by
  rw [step]
  split <;> rfl

theorem once_step (hk : k.Kept cfg) (h : Handler) (m : Move) (i : Nat) :
    (((k.step h cfg m).told i).map (·.event.fd)).Nodup := by
  rw [step]
  split
  · rename_i hm
    cases ht : k.crew.told? m with
    | none => exact hk.once i
    | some t =>
      obtain ⟨j, s, events⟩ := t
      dsimp only
      rw [Function.update_apply]
      split
      · rw [List.map_map]
        exact (hm.2 _ ht).1
      · exact hk.once i
  · exact hk.once i

theorem expects_step (hk : k.Kept cfg) (h : Handler) (hm : k.crew.Allows m) {i : Nat} {s : Station}
    (hi : (k.crew.step h cfg m).stations[i]? = some s) :
    s.Expects (k.step h cfg m).owner ((k.step h cfg m).told i) := by
  -- a descriptor that is still to be served belongs to a socket at the station, so no other gets it
  have hother {t : Station} (ht : k.crew.stations[i]? = some t) (htold : k.crew.told? m = none) :
      t.Expects (k.step h cfg m).owner ((k.step h cfg m).told i) := by
    rw [told_step_of_none hm htold]
    refine (hk.expects i t ht).owner_congr fun fd hfd => owner_step h cfg k m fd ?_
    refine List.mem_append_right _ (List.mem_flatMap.mpr ⟨t, List.mem_of_getElem? ht, ?_⟩)
    exact List.mem_append_right _ hfd
  cases m with
  | raise => exact hother hi rfl
  | wake j =>
    obtain ⟨t, ht, hstage, hworker, -⟩ := Crew.exists_station_atInbox (f := Inbox.wake)
      (fun b => b.wakeup.count_le_count_notify) hi
    exact (hother ht rfl).congr hstage hworker
  | acceptor r =>
    obtain ⟨t, ht, hstage, hworker, -⟩ := Crew.exists_station_acceptorMove hi
    exact (hother ht rfl).congr hstage hworker
  | worker j r =>
    rw [owner_step_worker]
    rw [Crew.step, Crew.workerMove] at hi
    cases hj : k.crew.stations[j]? with
    | none =>
      have hnone : k.crew.told? (.worker j r) = none := by
        simp only [Crew.told?, hj, Option.bind_none]
      rw [hj] at hi
      rw [told_step_of_none hm hnone]
      exact hk.expects i s hi
    | some t =>
      rw [hj] at hi
      dsimp only at hi
      by_cases hij : i = j
      · subst hij
        rw [List.getElem?_set_self (List.getElem?_eq_some_iff.mp hj).1] at hi
        cases hi
        exact expects_worker hk h hm hj
      · rw [List.getElem?_set_ne (Ne.symm hij)] at hi
        rw [told_step_worker_of_ne hij]
        exact hk.expects i s hi

theorem Kept.step (hk : k.Kept cfg) (h : Handler) (m : Move) : (k.step h cfg m).Kept cfg := by
  by_cases hm : k.crew.Allows m
  · have hcrew : (k.step h cfg m).crew = k.crew.step h cfg m := crew_step hm
    refine ⟨?_, ?_, fun i s hi => ?_, once_step hk h m, fresh_step hk.fresh h cfg m⟩
    · exact hcrew ▸ hk.seated.step h m
    · exact hcrew ▸ Crew.nodup_fds_step hk.seated hk.distinct h hm
    · exact expects_step hk h hm (hcrew ▸ hi)
  · rw [Hosted.step, if_neg hm]
    exact hk

theorem Kept.run (hk : k.Kept cfg) (h : Handler) (moves : List Move) :
    (k.run h cfg moves).Kept cfg := by
  induction moves generalizing k with
  | nil => exact hk
  | cons m moves ih => exact ih (hk.step h m)

/-- No two sockets are mixed up. -/
structure Unmixed (h : Handler) (cfg : Config) (k : Hosted) : Prop where
  distinct : k.crew.fds.Nodup
  inserts : ∀ (i : Nat) (s : Station) a batch events, k.crew.stations[i]? = some s →
    s.stage = .adopting (a :: batch) events → a.fd ∉ s.worker.connections.keys
  reaches : ∀ (i : Nat) (s : Station) e events, k.crew.stations[i]? = some s →
    s.stage = .serving (e :: events) → e.fd ∈ s.worker.connections.keys →
      s.worker.report k.owner e ∈ k.told i
  once : ∀ i, ((k.told i).map (·.event.fd)).Nodup
  owners : ∀ m, ∀ fd ∈ k.crew.fds, (k.step h cfg m).owner fd = k.owner fd
  fresh : ∀ fd, k.owner fd < k.given

theorem Kept.unmixed (hk : k.Kept cfg) (h : Handler) : k.Unmixed h cfg where
  distinct := hk.distinct
  inserts := by
    intro i s a batch events hi hstage hmem
    have hstations := (List.nodup_append.mp hk.distinct).2.1
    have hstation := (List.nodup_flatMap.mp hstations).1 s (List.mem_of_getElem? hi)
    rw [Station.fds, Station.inHand, hstage] at hstation
    have hhand : a.fd ∈ (s.inbox.queue ++ a :: batch).map (·.fd) := by simp
    exact (List.nodup_append.mp hstation).2.2 _ hhand _ hmem rfl
  reaches := by
    intro i s e events hi hstage hk'
    have hexpects := hk.expects i s hi
    refine hexpects.told e ?_ hk'
    rw [hstage]
    exact List.mem_cons_self
  once := hk.once
  owners := owner_step h cfg k
  fresh := hk.fresh

/-- Whatever free descriptors the kernel gives, and however the threads are interleaved, each
descriptor has one holder, and an event is served for the connection that it was told of. -/
theorem run_unmixed (h : Handler) (cfg : Config) (credentials : Credentials) (wakeups : Nat → Fd)
    (moves : List Move) : ((start cfg credentials wakeups).run h cfg moves).Unmixed h cfg :=
  ((kept_start cfg credentials wakeups).run h moves).unmixed h

example :
    let cfg := { Config.standard 1 with idleTimeout := none }
    let h : Handler := ⟨fun _ => .notFound, none⟩
    let client (fd : Fd) : List Move :=
      List.replicate 8 (.acceptor ⟨none, true, .accepted ⟨fd, "10.0.0.1:4000"⟩⟩)
    let work (n : Nat) (events : List Event) : List Move :=
      List.replicate n (.worker 0 ⟨0, .ok events, ⟨none, [], [], [], none⟩⟩)
    let k := run h cfg (start cfg (.empty Credentials.spread) id) (client 7 ++ client 8 ++
      work 9 [⟨0, 1⟩] ++ work 4 [⟨7, 16⟩, ⟨0, 1⟩, ⟨8, 1⟩] ++ client 7 ++ work 4 [])
    k.crew.stations.map (fun s => s.stage.pending) = [[⟨8, 1⟩]] ∧ k.crew.fds = [8, 7] ∧
      [7, 8].map k.owner = [3, 2] ∧ (k.told 0).map (·.owner) = [1, 0, 2] := by
  decide +kernel

end Hosted
end EventHttp
