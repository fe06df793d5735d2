import EventHttp.Proofs.Crew.Accounting
import EventHttp.Proofs.Polling.Delivery
import EventHttp.Proofs.Worker.Shift

/-! A worker that has read the flag and has still to wait.  It watches its wakeup whatever else it
watches, and on its way to the wait it leaves its counter alone; once the flag is raised, no other
worker gets there.  What the other threads do to its inbox does not lower the counter. -/

namespace EventHttp

namespace Workplace

variable {h : Handler} {cfg : Config} {p p' : Workplace} {fd : Fd} {now : Nat} {e : Event}

structure KeepsWakeup (p p' : Workplace) : Prop where
  wakeupFd : p'.worker.wakeupFd = p.worker.wakeupFd
  slot : p'.worker.slot p.worker.wakeupFd = p.worker.slot p.worker.wakeupFd

theorem keepsWakeup_of_worker (hw : p'.worker = p.worker) : p.KeepsWakeup p' :=
  ⟨by rw [hw], by rw [hw]⟩

theorem keepsWakeup_teardown (hne : fd ≠ p.worker.wakeupFd) : p.KeepsWakeup (p.teardown fd) where
  wakeupFd := by rw [worker_teardown]
  slot := (slot_teardown p fd _).trans (if_neg hne.symm)

theorem Served.wakeupFd (hv : Served cfg now fd p p') : p'.worker.wakeupFd = p.worker.wakeupFd := by
  obtain ⟨q, hq, hend⟩ := hv
  have hstored : q.worker.wakeupFd = p.worker.wakeupFd := by
    obtain ⟨c, s, rfl⟩ := hq.stored
    show (p.touch cfg now fd).worker.wakeupFd = _
    unfold touch
    split <;> rfl
  rcases hend with rfl | ⟨interest, rfl⟩
  · rw [worker_teardown, hstored]
  · exact hstored

theorem keepsWakeup_dispatch (hw : e.fd ≠ p.worker.wakeupFd) (calls : Calls) :
    p.KeepsWakeup (p.dispatch h cfg now e calls).place := by
  refine ⟨?_, slot_dispatch_of_ne hw hw.symm⟩
  rcases dispatch_cases h cfg now p e calls with ⟨he, -⟩ | hsame | ⟨-, htear | hv⟩
  · exact absurd he hw
  · rw [hsame]
  · rw [htear, worker_teardown]
  · exact hv.wakeupFd

theorem keepsWakeup_adopt {interest : Interest}
    (hg : p.worker.watches.get? p.worker.wakeupFd = some interest) (s : Pending)
    (faults : AdoptFaults) : p.KeepsWakeup (p.adopt cfg now s faults) := by
  refine ⟨?_, slot_adopt_of_watched cfg now hg s faults⟩
  rcases adopt_cases cfg now p s faults with he | ⟨-, he⟩ <;> rw [he]
  · rfl
  · rfl

end Workplace

def WorkerStage.isBound : WorkerStage → Bool
  | expiring _ | waiting => true
  | _ => false

namespace Desk

variable {h : Handler} {cfg : Config} {d : Desk} {r : WorkerReply}

theorem keepsWakeup_move {interest : Interest} (ho : d.station.InOrder cfg.idleTimeout)
    (hg : d.place.worker.watches.get? d.place.worker.wakeupFd = some interest) (h : Handler)
    (raised : Bool) (r : WorkerReply) : d.place.KeepsWakeup (d.move h cfg raised r).place := by
  obtain ⟨stage, p⟩ := d
  have hs : p.worker.InStep cfg.idleTimeout := ho.inStep
  cases stage with
  | looking =>
    rw [move]
    split <;> exact Workplace.keepsWakeup_of_worker rfl
  | expiring now =>
    rw [move]
    split
    · rename_i e he
      have hk := Workplace.mem_keys_of_dueRoot? hs he
      exact Workplace.keepsWakeup_teardown (hs.ne_wakeupFd hk)
    · exact Workplace.keepsWakeup_of_worker rfl
  | waiting =>
    rw [move]
    split <;> exact Workplace.keepsWakeup_of_worker rfl
  | serving events =>
    cases events with
    | nil => exact Workplace.keepsWakeup_of_worker rfl
    | cons e events =>
      rw [move]
      split
      · split <;> exact Workplace.keepsWakeup_of_worker rfl
      · rename_i hw
        exact Workplace.keepsWakeup_dispatch hw r.calls
  | taking events => exact Workplace.keepsWakeup_of_worker rfl
  | adopting batch events =>
    cases batch with
    | nil => exact Workplace.keepsWakeup_of_worker rfl
    | cons s batch => exact Workplace.keepsWakeup_adopt hg s _
  | closing fds =>
    cases fds with
    | nil => exact Workplace.keepsWakeup_of_worker rfl
    | cons fd fds =>
      have hl : p.worker.connections.keys = fd :: fds := ho.leaves
      have hk : fd ∈ p.worker.connections.keys := hl ▸ List.mem_cons_self
      exact Workplace.keepsWakeup_teardown (hs.ne_wakeupFd hk)
  | resetting =>
    rw [move]
    split <;> exact Workplace.keepsWakeup_of_worker rfl
  | emptying => exact Workplace.keepsWakeup_of_worker rfl
  | releasing batch => cases batch <;> exact Workplace.keepsWakeup_of_worker rfl
  | left => exact Workplace.keepsWakeup_of_worker rfl

theorem move_isBound (hb : (d.move h cfg true r).stage.isBound = true) :
    d.stage.isBound = true ∧ (d.move h cfg true r).place.inbox = d.place.inbox := by
  obtain ⟨stage, p⟩ := d
  cases stage with
  | looking => cases hb
  | expiring now =>
    refine ⟨rfl, ?_⟩
    rw [move]
    split
    · exact Workplace.inbox_teardown p _
    · rfl
  | waiting =>
    rw [move] at hb
    split at hb <;> cases hb
  | serving events =>
    cases events with
    | nil => cases hb
    | cons e events =>
      rw [move] at hb
      split at hb
      · split at hb <;> cases hb
      · cases hb
  | taking events => cases hb
  | adopting batch events => cases batch <;> cases hb
  | closing fds => cases fds <;> cases hb
  | resetting =>
    rw [move] at hb
    split at hb <;> cases hb
  | emptying => cases hb
  | releasing batch => cases batch <;> cases hb
  | left => cases hb

end Desk

structure Station.Follows (raised : Bool) (s s' : Station) : Prop where
  watch : s.worker.watches.get? s.worker.wakeupFd = some .readable →
    s'.worker.wakeupFd = s.worker.wakeupFd ∧
      s'.worker.watches.get? s.worker.wakeupFd = some .readable
  bound : raised = true → s'.stage.isBound = true →
    s.stage.isBound = true ∧ s.inbox.wakeup.count ≤ s'.inbox.wakeup.count

theorem Station.Follows.of_count {raised : Bool} {s s' : Station} (hs : s'.stage = s.stage)
    (hw : s'.worker = s.worker) (hc : s.inbox.wakeup.count ≤ s'.inbox.wakeup.count) :
    s.Follows raised s' where
  watch := fun hg => hw.symm ▸ ⟨rfl, hg⟩
  bound := fun _ hb => ⟨hs ▸ hb, hc⟩

namespace Crew

variable {h : Handler} {cfg : Config} {c c' : Crew}

def Follows (c c' : Crew) : Prop :=
  ∀ (i : Nat) (s' : Station), c'.stations[i]? = some s' →
    ∃ s : Station, c.stations[i]? = some s ∧ s.Follows c.raised s'

theorem follows_of_stations (hs : c'.stations = c.stations) : c.Follows c' := fun _ s' hi =>
  ⟨s', hs ▸ hi, .of_count rfl rfl (Nat.le_refl _)⟩

theorem follows_wake (c : Crew) (i : Nat) : c.Follows (c.atInbox i Inbox.wake) := by
  intro j s' hj
  obtain ⟨s, hs, hstage, hworker, hcount⟩ := exists_station_atInbox (f := Inbox.wake)
    (fun b => b.wakeup.count_le_count_notify) hj
  exact ⟨s, hs, .of_count hstage hworker hcount⟩

theorem follows_acceptorMove (cfg : Config) (c : Crew) (r : AcceptorReply) :
    c.Follows (c.acceptorMove cfg r) := by
  intro j s' hj
  obtain ⟨s, hs, hstage, hworker, hcount⟩ := exists_station_acceptorMove hj
  exact ⟨s, hs, .of_count hstage hworker hcount⟩

theorem follows_workerMove (hs : c.Seated cfg) (h : Handler) (i : Nat) (r : WorkerReply) :
    c.Follows (c.workerMove h cfg i r) := by
  rcases workerMove_cases hs h i r with he | ⟨s, d, hi, hd, -, -, he⟩
  · rw [he]
    exact follows_of_stations rfl
  · rw [he]
    intro j s' hj
    rw [List.getElem?_set] at hj
    split at hj
    · rename_i hij
      subst hij
      rw [if_pos (List.getElem?_eq_some_iff.mp hi).1] at hj
      cases hj
      have ho : (s.desk c.shared).station.InOrder cfg.idleTimeout := inOrder_of_getElem? hs hi
      refine ⟨s, hi, ⟨fun hg => ?_, fun hraised hb => ?_⟩⟩
      · have hkeeps := Desk.keepsWakeup_move ho hg h c.raised r
        rw [← hd] at hkeeps
        exact ⟨hkeeps.wakeupFd, (congrArg Prod.fst hkeeps.slot).trans hg⟩
      · subst hd
        rw [hraised] at hb ⊢
        obtain ⟨hbound, hinbox⟩ := Desk.move_isBound hb
        refine ⟨hbound, ?_⟩
        exact Nat.le_of_eq (congrArg (·.wakeup.count) hinbox).symm
    · exact ⟨s', hj, .of_count rfl rfl (Nat.le_refl _)⟩

theorem raised_workerMove (h : Handler) (cfg : Config) (c : Crew) (i : Nat) (r : WorkerReply) :
    (c.workerMove h cfg i r).raised = c.raised := by
  unfold workerMove
  split <;> rfl

theorem raised_acceptorMove (cfg : Config) (c : Crew) (r : AcceptorReply) :
    (c.acceptorMove cfg r).raised = c.raised := by
  obtain ⟨shared, raised, turn, acceptor, stations, ledger⟩ := c
  cases acceptor with
  | waiting =>
    dsimp only [acceptorMove]
    split <;> rfl
  | accepting =>
    dsimp only [acceptorMove]
    split <;> rfl
  | _ => rfl

theorem exists_stage_workerMove {i : Nat} {s : Station} (hi : c.stations[i]? = some s)
    (hs : s.stage = .waiting) (h : Handler) (r : WorkerReply) :
    ∃ s', (c.workerMove h cfg i r).stations[i]? = some s' ∧ s'.stage ≠ .waiting := by
  refine ⟨((s.desk c.shared).move h cfg c.raised r).station, ?_, ?_⟩
  · rw [workerMove, hi]
    exact List.getElem?_set_self (List.getElem?_eq_some_iff.mp hi).1
  · rw [Station.desk, hs, Desk.move]
    split <;> exact WorkerStage.noConfusion

theorem count_pos_of_wake {i : Nat} {s : Station}
    (hi : (c.atInbox i Inbox.wake).stations[i]? = some s) : 0 < s.inbox.wakeup.count := by
  rw [atInbox, List.getElem?_modify] at hi
  obtain ⟨t, -, rfl⟩ := Option.map_eq_some_iff.mp hi
  rw [if_pos rfl]
  exact t.inbox.wakeup.count_notify_pos

end Crew
end EventHttp
