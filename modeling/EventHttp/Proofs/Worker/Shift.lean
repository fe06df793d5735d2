import EventHttp.Proofs.Worker.Arming
import Mathlib.Data.List.Dedup

/-! A worker at its loop: it closes what is idle, waits, and serves the events of the wait one
after the other.  However long it has been at it, each connection is armed for the one thing
that it waits for, and no response is queued before the one ahead of it is out. -/

namespace EventHttp

namespace Workplace

variable {h : Handler} {cfg : Config} {p : Workplace} {fd g : Fd} {now : Nat}
  {interest : Interest}

theorem slot_adopt_of_watched (cfg : Config) (now : Nat)
    (hg : p.worker.watches.get? g = some interest) (s : Pending) (faults : AdoptFaults) :
    (p.adopt cfg now s faults).worker.slot g = p.worker.slot g := by
  rcases adopt_cases cfg now p s faults with he | ⟨hn, he⟩
  · rw [he]
    rfl
  · have hne : g ≠ s.fd := by
      rintro rfl
      exact hn (Table.mem_keys_of_get? hg)
    rw [he]
    exact (Worker.slot_enrol cfg now p.worker s g).trans (if_neg hne)

theorem armedAt_adopt (ha : p.worker.ArmedAt cfg g) (s : Pending) (faults : AdoptFaults) :
    (p.adopt cfg now s faults).worker.ArmedAt cfg g := by
  rcases adopt_cases cfg now p s faults with he | ⟨-, he⟩
  · rw [he]
    exact ha
  · rw [he]
    have hslot := Worker.slot_enrol cfg now p.worker s g
    split at hslot
    · obtain ⟨hw, hc⟩ := Prod.mk.inj hslot
      intro c hget
      have hpeer := hc.symm.trans hget
      cases hpeer
      exact ⟨_, hw, .reading (Connection.awaits_ofPeer s.peer)⟩
    · exact ha.congr hslot

theorem slot_adoptAll_of_watched (hg : p.worker.watches.get? g = some interest)
    (batch : List Pending) (faults : List AdoptFaults) :
    (adoptAll cfg now p batch faults).worker.slot g = p.worker.slot g := by
  induction batch generalizing p faults with
  | nil => rfl
  | cons s rest ih =>
    have hstep (f : AdoptFaults) (faults : List AdoptFaults) :
        (adoptAll cfg now (p.adopt cfg now s f) rest faults).worker.slot g = p.worker.slot g := by
      have hslot := slot_adopt_of_watched cfg now hg s f
      exact (ih ((congrArg Prod.fst hslot).trans hg) faults).trans hslot
    cases faults with
    | nil => exact hstep ⟨none, none⟩ []
    | cons f faults => exact hstep f faults

theorem armedAt_adoptAll (ha : p.worker.ArmedAt cfg g) (batch : List Pending)
    (faults : List AdoptFaults) : (adoptAll cfg now p batch faults).worker.ArmedAt cfg g := by
  induction batch generalizing p faults with
  | nil => exact ha
  | cons s rest ih =>
    cases faults with
    | nil => exact ih (armedAt_adopt ha s ⟨none, none⟩) []
    | cons f faults => exact ih (armedAt_adopt ha s f) faults

theorem slot_adoptPending_of_watched (hg : p.worker.watches.get? g = some interest)
    (calls : Calls) : (p.adoptPending cfg now calls).worker.slot g = p.worker.slot g := by
  unfold adoptPending
  split
  · rfl
  · rename_i pending inbox hd
    exact slot_adoptAll_of_watched (p := { p with inbox }) hg pending calls.adopt

theorem armedAt_adoptPending (ha : p.worker.ArmedAt cfg g) (calls : Calls) :
    (p.adoptPending cfg now calls).worker.ArmedAt cfg g := by
  unfold adoptPending
  split
  · exact ha
  · rename_i pending inbox hd
    exact armedAt_adoptAll (p := { p with inbox }) ha pending calls.adopt

theorem armedAt_teardown (ha : p.worker.ArmedAt cfg g) (fd : Fd) :
    (p.teardown fd).worker.ArmedAt cfg g := by
  have hslot := slot_teardown p fd g
  split at hslot
  · exact Worker.armedAt_of_none (congrArg Prod.snd hslot)
  · exact ha.congr hslot

def HandsOver (p : Workplace) (fd : Fd) (c : Connection) (d : Dispatched) : Prop :=
  ∃ (left : Outgoing) (queued : Option Response),
    Outgoing.Handover c.outgoing.bytes d.sent left queued ∧
    d.place.shared.counters.requests = p.shared.counters.requests + queued.elim 0 (fun _ => 1) ∧
    ∀ c', d.place.worker.connections.get? fd = some c' → c'.outgoing = left

structure Attends (cfg : Config) (p : Workplace) (fd : Fd) (d : Dispatched) : Prop where
  slot : ∀ g, g ≠ fd → d.place.worker.slot g = p.worker.slot g
  armedAt : d.place.worker.ArmedAt cfg fd
  handsOver : ∀ c, p.worker.connections.get? fd = some c → p.HandsOver fd c d

theorem attends_rest (ha : p.worker.ArmedAt cfg fd) : Attends cfg p fd ⟨p, []⟩ where
  slot := fun _ _ => rfl
  armedAt := ha
  handsOver := by
    intro c hc
    refine ⟨c.outgoing, none, Outgoing.handover_none rfl, (UInt64.add_zero _).symm, fun c' hc' => ?_⟩
    cases hc.symm.trans hc'
    rfl

theorem attends_teardown (p : Workplace) (fd : Fd) : Attends cfg p fd ⟨p.teardown fd, []⟩ := by
  have hgone : (p.teardown fd).worker.connections.get? fd = none := by
    have hslot := slot_teardown p fd fd
    rw [if_pos rfl] at hslot
    exact congrArg Prod.snd hslot
  refine ⟨fun g hne => ?_, Worker.armedAt_of_none hgone, fun c _ => ?_⟩
  · exact (slot_teardown p fd g).trans (if_neg hne)
  · refine ⟨c.outgoing, none, Outgoing.handover_none rfl, ?_, fun c' hc' => ?_⟩
    · exact (requests_teardown p fd).trans (UInt64.add_zero _).symm
    · cases hgone.symm.trans hc'

theorem attends_conclude {c : Connection} {w : Written} (hc : p.worker.connections.get? fd = some c)
    (hw : Connection.Serves c.outgoing.bytes p.shared.counters.requests w)
    (fault : Option IoError) :
    Attends cfg p fd ⟨(p.touch cfg now fd).conclude cfg fd w fault, w.sent⟩ := by
  obtain ⟨hself, hrequests⟩ := conclude_self cfg (p.touch cfg now fd) fd w fault
  refine ⟨fun g hne => ?_, fun c' hc' => ?_, fun c' hc' => ?_⟩
  · exact (slot_conclude_of_ne hne w fault).trans (slot_touch cfg now p fd g)
  · rcases hself with hgone | ⟨hstays, next, hnext, wanted, hwanted, hwatch⟩
    · cases hgone.symm.trans hc'
    · cases hstays.symm.trans hc'
      exact ⟨_, hwatch, Config.arms_of_awaits (hw.awaits next hnext) hwanted⟩
  · cases hc.symm.trans hc'
    obtain ⟨queued, hover, hcount⟩ := hw.queued
    refine ⟨w.connection.outgoing, queued, hover, hrequests.trans hcount, fun c'' hc'' => ?_⟩
    rcases hself with hgone | ⟨hstays, -⟩
    · cases hgone.symm.trans hc''
    · cases hstays.symm.trans hc''
      rfl

theorem attends_dispatch {e : Event} (h : Handler) (now : Nat) (calls : Calls)
    (hne : e.fd ≠ p.worker.wakeupFd) (ha : p.worker.ArmedAt cfg e.fd)
    (ht : Poller.Tells p.worker.watches e) :
    Attends cfg p e.fd (p.dispatch h cfg now e calls) := by
  cases hc : p.worker.connections.get? e.fd with
  | none =>
    have hunknown : p.worker.connections.contains e.fd = false := by
      rw [Table.contains, hc]
      rfl
    have hrest : p.dispatch h cfg now e calls = ⟨p, []⟩ := by
      rw [dispatch, if_neg hne, hunknown, Bool.not_false, if_pos rfl]
    rw [hrest]
    exact attends_rest ha
  | some c =>
    rcases dispatch_connection h cfg now calls hne hc ha ht with he | he | ⟨w, hw, he⟩
    · rw [he]
      exact attends_teardown p e.fd
    · rw [he]
      exact attends_rest ha
    · rw [he]
      exact attends_conclude hc hw calls.rearm

end Workplace

/-- A worker, and the events of its last wait that it has not served. -/
structure Shift where
  place : Workplace
  pending : List Event

inductive ShiftStep where
  | expireIdle (now : Nat)
  | wait (disarmed queue : List Fd) (ready : Readiness) (capacity : Nat)
  | serve (now : Nat) (calls : Calls)
  | closeAll (fault : Option IoError)
  | elsewhere (inbox : Inbox Pending) (shared : Shared)

namespace Shift

def start (wakeupFd : Fd) (inbox : Inbox Pending) (shared : Shared) : Shift :=
  ⟨⟨.start wakeupFd, inbox, shared⟩, []⟩

def step (h : Handler) (cfg : Config) (s : Shift) (step : ShiftStep) : Shift :=
  match step, s.pending with
  | .elsewhere inbox shared, _ => { s with place := { s.place with inbox, shared } }
  | .serve now calls, e :: rest => ⟨(s.place.dispatch h cfg now e calls).place, rest⟩
  | .expireIdle now, [] => ⟨(s.place.expireIdle now).2, []⟩
  | .wait disarmed queue ready capacity, [] =>
    ⟨s.place, ((⟨s.place.worker.watches, disarmed, queue.dedup⟩ : Poller).wait ready capacity).2⟩
  | .closeAll fault, [] => ⟨s.place.closeAll fault, []⟩
  | _, _ => s

def run (h : Handler) (cfg : Config) (s : Shift) (steps : List ShiftStep) : Shift :=
  steps.foldl (step h cfg) s

variable {h : Handler} {cfg : Config} {s : Shift}

structure Kept (cfg : Config) (s : Shift) : Prop where
  inStep : s.place.worker.InStep cfg.idleTimeout
  armedAt : ∀ fd, s.place.worker.ArmedAt cfg fd
  tells : ∀ e ∈ s.pending, Poller.Tells s.place.worker.watches e
  distinct : (s.pending.map (·.fd)).Nodup

theorem kept_start (wakeupFd : Fd) (inbox : Inbox Pending) (shared : Shared) :
    (start wakeupFd inbox shared).Kept cfg where
  inStep := Worker.inStep_start wakeupFd
  armedAt := fun _ => Worker.armedAt_of_none rfl
  tells := nofun
  distinct := List.nodup_nil

theorem Kept.slot_dispatch {e : Event} (hk : s.Kept cfg) (he : e ∈ s.pending) (h : Handler)
    (now : Nat) (calls : Calls) {g : Fd} {interest : Interest} (hne : g ≠ e.fd)
    (hg : s.place.worker.watches.get? g = some interest) :
    (s.place.dispatch h cfg now e calls).place.worker.slot g = s.place.worker.slot g := by
  by_cases hw : e.fd = s.place.worker.wakeupFd
  · rw [Workplace.dispatch, if_pos hw]
    exact Workplace.slot_adoptPending_of_watched hg calls
  · exact (Workplace.attends_dispatch h now calls hw (hk.armedAt e.fd) (hk.tells e he)).slot g hne

theorem Kept.serve {e : Event} {rest : List Event} (hk : s.Kept cfg) (he : s.pending = e :: rest)
    (h : Handler) (now : Nat) (calls : Calls) :
    (⟨(s.place.dispatch h cfg now e calls).place, rest⟩ : Shift).Kept cfg := by
  have hmem : e ∈ s.pending := he ▸ List.mem_cons_self
  have hdistinct := hk.distinct
  rw [he, List.map_cons, List.nodup_cons] at hdistinct
  refine ⟨Workplace.inStep_dispatch hk.inStep h now e calls, fun g => ?_, fun e' he' => ?_,
    hdistinct.2⟩
  · by_cases hw : e.fd = s.place.worker.wakeupFd
    · dsimp only
      rw [Workplace.dispatch, if_pos hw]
      exact Workplace.armedAt_adoptPending (hk.armedAt g) calls
    · have hattends := Workplace.attends_dispatch h now calls hw (hk.armedAt e.fd) (hk.tells e hmem)
      by_cases hg : g = e.fd
      · rw [hg]
        exact hattends.armedAt
      · exact (hk.armedAt g).congr (hattends.slot g hg)
  · -- the event was told of its descriptor before this one was served, and still fits
    obtain ⟨interest, bits, hwatched, hmask⟩ := hk.tells e' (he ▸ List.mem_cons_of_mem e he')
    have hne : e'.fd ≠ e.fd := by
      intro heq
      exact hdistinct.1 (heq ▸ List.mem_map_of_mem he')
    have hslot := hk.slot_dispatch hmem h now calls hne hwatched
    exact ⟨interest, bits, (congrArg Prod.fst hslot).trans hwatched, hmask⟩

theorem Kept.step (hk : s.Kept cfg) (h : Handler) (step : ShiftStep) :
    (s.step h cfg step).Kept cfg := by
  unfold Shift.step
  split
  · exact ⟨hk.inStep, hk.armedAt, hk.tells, hk.distinct⟩
  · rename_i he
    exact hk.serve he h _ _
  · have harmed := Workplace.expireIdle_teardown
      (Q := fun p => ∀ fd, p.worker.ArmedAt cfg fd) hk.inStep hk.armedAt
      fun q fd hq g => Workplace.armedAt_teardown (hq g) fd
    exact ⟨Workplace.inStep_expireIdle hk.inStep _, harmed _, nofun, List.nodup_nil⟩
  · rename_i disarmed queue ready capacity he
    obtain ⟨hsub, htells⟩ := Poller.wait_spec
      ⟨s.place.worker.watches, disarmed, queue.dedup⟩ ready capacity
    exact ⟨hk.inStep, hk.armedAt, htells, (List.nodup_dedup queue).sublist hsub⟩
  · rename_i fault he
    obtain ⟨hin, hnone⟩ := Workplace.inStep_closeAll hk.inStep fault
    refine ⟨hin, fun fd => Worker.armedAt_of_none ?_, nofun, List.nodup_nil⟩
    apply Table.get?_eq_none_of_not_mem_keys
    rw [hnone]
    exact List.not_mem_nil
  · exact hk

theorem Kept.run (hk : s.Kept cfg) (h : Handler) (steps : List ShiftStep) :
    (s.run h cfg steps).Kept cfg := by
  induction steps generalizing s with
  | nil => exact hk
  | cons step steps ih => exact ih (hk.step h step)

/-- Each connection is armed for what it waits for; and the next event, whatever comes of it,
hands over the output of its connection in order, and touches no other. -/
structure Orderly (h : Handler) (cfg : Config) (s : Shift) : Prop where
  armed : ∀ fd c, s.place.worker.connections.get? fd = some c →
    ∃ interest, s.place.worker.watches.get? fd = some interest ∧ cfg.ArmsFor c interest
  handsOver : ∀ e rest c now calls, s.pending = e :: rest →
    s.place.worker.connections.get? e.fd = some c →
      s.place.HandsOver e.fd c (s.place.dispatch h cfg now e calls)
  others : ∀ e rest fd c now calls, s.pending = e :: rest → fd ≠ e.fd →
    s.place.worker.connections.get? fd = some c →
      (s.place.dispatch h cfg now e calls).place.worker.connections.get? fd = some c

theorem Kept.orderly (hk : s.Kept cfg) (h : Handler) : s.Orderly h cfg where
  armed := by
    intro fd c hc
    obtain ⟨interest, hwatched, harms⟩ := hk.armedAt fd c hc
    exact ⟨interest, hwatched, harms.armsFor⟩
  handsOver := by
    intro e rest c now calls he hc
    have hmem : e ∈ s.pending := he ▸ List.mem_cons_self
    have hw := hk.inStep.ne_wakeupFd (Table.mem_keys_of_get? hc)
    have hattends := Workplace.attends_dispatch h now calls hw (hk.armedAt e.fd) (hk.tells e hmem)
    exact hattends.handsOver c hc
  others := by
    intro e rest fd c now calls he hne hc
    obtain ⟨interest, hwatched, -⟩ := hk.armedAt fd c hc
    have hmem : e ∈ s.pending := he ▸ List.mem_cons_self
    have hslot := hk.slot_dispatch hmem h now calls hne hwatched
    exact (congrArg Prod.snd hslot).trans hc

theorem run_orderly (h : Handler) (cfg : Config) (wakeupFd : Fd) (inbox : Inbox Pending)
    (shared : Shared) (steps : List ShiftStep) :
    (run h cfg (start wakeupFd inbox shared) steps).Orderly h cfg :=
  ((kept_start wakeupFd inbox shared).run h steps).orderly h

end Shift
end EventHttp
