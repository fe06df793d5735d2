import EventHttp.Proofs.Worker.Serving
import Mathlib.Data.Set.Basic

/-! The three tables of a worker stay in step.  Every connection is watched and, if there
is an idle time, has a deadline; nothing else is watched but the wakeup, and nothing else
has a deadline. -/

namespace EventHttp

structure Worker.InStep (idle : Option Nat) (w : Worker) : Prop where
  distinct : (w.wakeupFd :: w.connections.keys).Nodup
  watched : ∀ fd, fd ∈ w.watches.keys ↔ fd = w.wakeupFd ∨ fd ∈ w.connections.keys
  reachable : w.timers.Reachable
  timed : ∀ fd, w.timers.contains fd = true ↔ idle.isSome = true ∧ fd ∈ w.connections.keys

namespace Worker

variable {idle : Option Nat} {w w' : Worker} {fd : Fd}

theorem inStep_start (wakeupFd : Fd) : (start wakeupFd).InStep idle where
  distinct := List.nodup_singleton wakeupFd
  watched := by
    intro fd
    rw [start, Table.mem_keys_put_iff]
    rfl
  reachable := ⟨[], rfl⟩
  timed := by
    intro fd
    refine ⟨fun hc => ?_, fun ⟨_, hk⟩ => (nomatch hk)⟩
    obtain ⟨e, he, -⟩ := TimerHeap.sound_empty.indexed.contains_iff.mp hc
    exact absurd he (Array.not_mem_empty e)

theorem InStep.ne_wakeupFd (hs : w.InStep idle) (hk : fd ∈ w.connections.keys) :
    fd ≠ w.wakeupFd := by
  rintro rfl
  exact (List.nodup_cons.mp hs.distinct).1 hk

theorem InStep.nodup (hs : w.InStep idle) : w.connections.keys.Nodup :=
  (List.nodup_cons.mp hs.distinct).2

theorem InStep.congr (hs : w.InStep idle) (hfd : w'.wakeupFd = w.wakeupFd)
    (hw : ∀ fd, fd ∈ w'.watches.keys ↔ fd ∈ w.watches.keys) (hn : w'.connections.keys.Nodup)
    (hc : ∀ fd, fd ∈ w'.connections.keys ↔ fd ∈ w.connections.keys) (hr : w'.timers.Reachable)
    (ht : ∀ fd, w'.timers.contains fd = true ↔ w.timers.contains fd = true) : w'.InStep idle where
  distinct := by
    rw [hfd]
    refine List.nodup_cons.mpr ⟨fun hk => ?_, hn⟩
    exact hs.ne_wakeupFd ((hc _).mp hk) rfl
  watched := fun fd => by rw [hw, hs.watched, hfd, hc]
  reachable := hr
  timed := fun fd => by rw [ht, hs.timed, hc]

end Worker

namespace Workplace

variable {h : Handler} {cfg : Config} {idle : Option Nat} {p : Workplace} {fd : Fd} {now : Nat}

theorem worker_teardown (p : Workplace) (fd : Fd) :
    (p.teardown fd).worker = ⟨p.worker.wakeupFd,
      (p.worker.watches.deregister fd).toOption.getD p.worker.watches,
      (p.worker.timers.cancel fd).2, p.worker.connections.erase fd⟩ := by
  rw [teardown]
  split <;> rfl

theorem watches_teardown (p : Workplace) (fd g : Fd) :
    g ∈ (p.teardown fd).worker.watches.keys ↔ g ∈ p.worker.watches.keys ∧ g ≠ fd := by
  rw [worker_teardown]
  dsimp only [Watches.deregister]
  split
  · exact Table.mem_keys_erase_iff
  · rename_i hc
    refine (and_iff_left_of_imp ?_).symm
    rintro hg rfl
    exact hc (Table.contains_iff_mem_keys.mpr hg)

theorem connections_teardown (p : Workplace) (fd : Fd) :
    (p.teardown fd).worker.connections = p.worker.connections.erase fd := by
  rw [worker_teardown]

theorem inStep_teardown (hs : p.worker.InStep idle) (hk : fd ∈ p.worker.connections.keys) :
    (p.teardown fd).worker.InStep idle where
  distinct := by
    rw [worker_teardown]
    exact List.nodup_cons.mpr ⟨fun hg => hs.ne_wakeupFd (Table.mem_keys_erase_iff.mp hg).1 rfl,
      Table.nodup_keys_erase hs.nodup⟩
  watched := by
    intro g
    rw [watches_teardown, hs.watched, worker_teardown, Table.mem_keys_erase_iff]
    constructor
    · rintro ⟨hg | hg, hne⟩
      · exact Or.inl hg
      · exact Or.inr ⟨hg, hne⟩
    · rintro (rfl | ⟨hg, hne⟩)
      · exact ⟨Or.inl rfl, (hs.ne_wakeupFd hk).symm⟩
      · exact ⟨Or.inr hg, hne⟩
  reachable := by
    rw [worker_teardown]
    exact hs.reachable.cancel fd
  timed := by
    intro g
    rw [worker_teardown, hs.reachable.sound.contains_cancel_iff, hs.timed, Table.mem_keys_erase_iff,
      and_assoc]

theorem inStep_enrol {w : Worker} (hs : w.InStep cfg.idleTimeout) (now : Nat) {s : Pending}
    (hn : s.fd ∉ w.watches.keys) : (w.enrol cfg now s).InStep cfg.idleTimeout where
  distinct := by
    refine List.nodup_cons.mpr ⟨fun hk => ?_, Table.nodup_keys_put hs.nodup⟩
    -- the wakeup is watched, so it is not the descriptor that is new
    rcases Table.mem_keys_put_iff.mp hk with he | hk
    · exact hn ((hs.watched _).mpr (Or.inl he.symm))
    · exact hs.ne_wakeupFd hk rfl
  watched := by
    intro g
    have hg := hs.watched g
    rw [Worker.enrol, Table.mem_keys_put_iff, Table.mem_keys_put_iff, hg, or_left_comm]
  reachable := by
    unfold Worker.enrol
    dsimp only
    split
    · exact hs.reachable.insert now s.fd _ _
    · exact hs.reachable
  timed := by
    intro g
    have hg := hs.timed g
    unfold Worker.enrol
    rw [Table.mem_keys_put_iff]
    dsimp only
    cases ht : cfg.idleTimeout with
    | none =>
      rw [ht] at hg
      rw [hg]
      exact ⟨fun hh => (nomatch hh.1), fun hh => (nomatch hh.1)⟩
    | some timeout =>
      rw [ht, Option.isSome_some, eq_self, true_and] at hg
      rw [hs.reachable.sound.contains_insert_iff, hg, Option.isSome_some, eq_self, true_and]

theorem inStep_adopt (hs : p.worker.InStep cfg.idleTimeout) (now : Nat) (s : Pending)
    (faults : AdoptFaults) : (p.adopt cfg now s faults).worker.InStep cfg.idleTimeout := by
  rcases adopt_cases cfg now p s faults with he | ⟨hn, he⟩
  · rw [he]
    exact hs
  · rw [he]
    exact inStep_enrol hs now hn

theorem inStep_adoptAll (hs : p.worker.InStep cfg.idleTimeout) (now : Nat) (batch : List Pending)
    (faults : List AdoptFaults) : (adoptAll cfg now p batch faults).worker.InStep cfg.idleTimeout := by
  induction batch generalizing p faults with
  | nil => exact hs
  | cons s rest ih =>
    cases faults with
    | nil => exact ih (inStep_adopt hs now s ⟨none, none⟩) []
    | cons f faults => exact ih (inStep_adopt hs now s f) faults

theorem inStep_adoptPending (hs : p.worker.InStep cfg.idleTimeout) (now : Nat) (calls : Calls) :
    (p.adoptPending cfg now calls).worker.InStep cfg.idleTimeout := by
  unfold adoptPending
  split
  · exact hs
  · rename_i pending inbox hd
    exact inStep_adoptAll (p := { p with inbox }) hs now pending calls.adopt

theorem inStep_touch (hs : p.worker.InStep idle) (cfg : Config) (now : Nat) (fd : Fd) :
    (p.touch cfg now fd).worker.InStep idle := by
  unfold touch
  split
  · exact hs.congr rfl (fun _ => Iff.rfl) hs.nodup (fun _ => Iff.rfl)
      (hs.reachable.renew now fd _) fun _ => hs.reachable.sound.contains_renew_iff
  · exact hs

theorem inStep_store (hs : p.worker.InStep idle) (hk : fd ∈ p.worker.connections.keys)
    (c : Connection) (s : Shared) : (p.store fd c s).worker.InStep idle := by
  refine hs.congr rfl (fun _ => Iff.rfl) (Table.nodup_keys_put hs.nodup) (fun g => ?_)
    hs.reachable fun _ => Iff.rfl
  rw [store, Table.mem_keys_put_iff, or_iff_right_of_imp]
  rintro rfl
  exact hk

theorem inStep_rewatch (hs : p.worker.InStep idle) (hk : fd ∈ p.worker.connections.keys)
    (interest : Interest) :
    { p.worker with watches := p.worker.watches.put fd interest }.InStep idle := by
  refine hs.congr rfl (fun g => ?_) hs.nodup (fun _ => Iff.rfl) hs.reachable fun _ => Iff.rfl
  rw [Table.mem_keys_put_iff, or_iff_right_of_imp]
  rintro rfl
  exact (hs.watched g).mpr (Or.inr hk)

theorem Stored.mem_keys {q : Workplace} (hq : Stored cfg now fd p q) :
    fd ∈ q.worker.connections.keys := by
  obtain ⟨c, s, rfl⟩ := hq.stored
  exact Table.mem_keys_put_iff.mpr (Or.inl rfl)

theorem inStep_served {p' : Workplace} (hs : p.worker.InStep idle)
    (hk : fd ∈ p.worker.connections.keys) (hv : Served cfg now fd p p') : p'.worker.InStep idle := by
  obtain ⟨q, hq, hend⟩ := hv
  have hmem := hq.mem_keys
  have hqs : q.worker.InStep idle := by
    obtain ⟨c, s, rfl⟩ := hq.stored
    exact inStep_store (inStep_touch hs cfg now fd) (touch_connections cfg now p fd ▸ hk) c s
  rcases hend with rfl | ⟨interest, rfl⟩
  · exact inStep_teardown hqs hmem
  · exact inStep_rewatch hqs hmem interest

theorem inStep_dispatch (hs : p.worker.InStep cfg.idleTimeout) (h : Handler) (now : Nat)
    (e : Event) (calls : Calls) :
    (p.dispatch h cfg now e calls).place.worker.InStep cfg.idleTimeout := by
  rcases dispatch_cases h cfg now p e calls with ⟨-, he⟩ | he | ⟨hk, he | hv⟩
  · rw [he]
    exact inStep_adoptPending hs now calls
  · rwa [he]
  · rw [he]
    exact inStep_teardown hs hk
  · exact inStep_served hs hk hv

def onIdle : TimerHeap.OnExpire Fd TimerAction Workplace := fun timers fd _ p =>
  let p := { p with worker.timers := timers }.teardown fd
  (p.worker.timers, p)

theorem expireIdle_eq (now : Nat) (p : Workplace) :
    p.expireIdle now =
      ((p.worker.timers.fire now onIdle p 0).heap.nextTimeout now,
        { (p.worker.timers.fire now onIdle p 0).state with
          worker.timers := (p.worker.timers.fire now onIdle p 0).heap }) := rfl

theorem timers_onIdle (timers : TimerHeap Fd TimerAction) (fd : Fd) (action : TimerAction)
    (p : Workplace) : (onIdle timers fd action p).1 = (timers.cancel fd).2 := by
  rw [onIdle]
  dsimp only
  rw [worker_teardown]

theorem fireEntry_onIdle (hr : p.worker.timers.Reachable) (e : TimerEntry Fd TimerAction)
    (neglected : List Fd) :
    TimerHeap.fireEntry now onIdle e ⟨p.worker.timers, p, neglected⟩ =
      ⟨(p.teardown e.key).worker.timers, p.teardown e.key, neglected⟩ := by
  have hgone : (onIdle p.worker.timers e.key e.payload p).1.deadline? e.key = none := by
    rw [timers_onIdle]
    exact hr.sound.deadline?_cancel_self e.key
  rw [TimerHeap.fireEntry]
  dsimp only
  rw [hgone]
  rfl

theorem mem_keys_of_dueRoot? (hs : p.worker.InStep idle) {e : TimerEntry Fd TimerAction}
    (he : p.worker.timers.dueRoot? now = some e) : e.key ∈ p.worker.connections.keys := by
  have hp := (TimerHeap.dueRoot?_eq_some_iff.mp he).1
  have hc := hs.reachable.sound.indexed.contains_iff.mpr ⟨e, TimerHeap.mem_of_peek? hp, rfl⟩
  exact ((hs.timed e.key).mp hc).2

theorem fireTurns_teardown {Q : Workplace → Prop} (hs : p.worker.InStep idle) (hq : Q p)
    (hdown : ∀ q fd, Q q → Q (q.teardown fd)) (now turns : Nat) :
    (TimerHeap.fireTurns now onIdle turns ⟨p.worker.timers, p, []⟩).heap =
        (TimerHeap.fireTurns now onIdle turns ⟨p.worker.timers, p, []⟩).state.worker.timers ∧
      (TimerHeap.fireTurns now onIdle turns ⟨p.worker.timers, p, []⟩).state.worker.InStep idle ∧
      Q (TimerHeap.fireTurns now onIdle turns ⟨p.worker.timers, p, []⟩).state := by
  refine TimerHeap.fireTurns_invariant
    (P := fun f : Fired Fd TimerAction Workplace =>
      f.heap = f.state.worker.timers ∧ f.state.worker.InStep idle ∧ Q f.state) ⟨rfl, hs, hq⟩ ?_ turns
  rintro ⟨heap, state, neglected⟩ e ⟨hheap, hs, hq⟩ he
  dsimp only at hheap hs hq he ⊢
  subst hheap
  rw [fireEntry_onIdle hs.reachable]
  exact ⟨rfl, inStep_teardown hs (mem_keys_of_dueRoot? hs he), hdown state e.key hq⟩

theorem fireTurns_onIdle (hs : p.worker.InStep idle) (now turns : Nat) :
    (TimerHeap.fireTurns now onIdle turns ⟨p.worker.timers, p, []⟩).heap =
        (TimerHeap.fireTurns now onIdle turns ⟨p.worker.timers, p, []⟩).state.worker.timers ∧
      (TimerHeap.fireTurns now onIdle turns ⟨p.worker.timers, p, []⟩).state.worker.InStep idle :=
  have hfired := fireTurns_teardown (Q := fun _ => True) hs trivial (fun _ _ h => h) now turns
  ⟨hfired.1, hfired.2.1⟩

theorem expireIdle_state (hs : p.worker.InStep idle) (now : Nat) :
    (p.expireIdle now).2 = (p.worker.timers.fire now onIdle p 0).state := by
  have hheap := (fireTurns_onIdle hs now (p.worker.timers.dueCount now + 0)).1
  rw [expireIdle_eq, TimerHeap.fire, hheap]

theorem inStep_expireIdle (hs : p.worker.InStep idle) (now : Nat) :
    (p.expireIdle now).2.worker.InStep idle := by
  rw [expireIdle_state hs]
  exact (fireTurns_onIdle hs now _).2

theorem expireIdle_teardown {Q : Workplace → Prop} (hs : p.worker.InStep idle) (hq : Q p)
    (hdown : ∀ q fd, Q q → Q (q.teardown fd)) (now : Nat) : Q (p.expireIdle now).2 := by
  rw [expireIdle_state hs]
  exact (fireTurns_teardown hs hq hdown now _).2.2

theorem foldl_teardown (hs : p.worker.InStep idle) {fds : List Fd}
    (hk : p.worker.connections.keys = fds) :
    (fds.foldl teardown p).worker.InStep idle ∧
      (fds.foldl teardown p).worker.connections.keys = [] := by
  induction fds generalizing p with
  | nil => exact ⟨hs, hk⟩
  | cons fd rest ih =>
    have hmem : fd ∈ p.worker.connections.keys := hk ▸ List.mem_cons_self
    refine ih (inStep_teardown hs hmem) ?_
    rw [connections_teardown, Table.keys_erase_of_nodup hs.nodup, hk, List.erase_cons_head]

theorem worker_foldl_release (p : Workplace) (pending : List Pending) :
    (pending.foldl (fun p _ => p.release) p).worker = p.worker := by
  induction pending generalizing p with
  | nil => rfl
  | cons s rest ih => exact ih p.release

theorem worker_closeAll (p : Workplace) (fault : Option IoError) :
    (p.closeAll fault).worker = (p.worker.connections.keys.foldl teardown p).worker := by
  unfold closeAll
  dsimp only
  split
  · rfl
  · exact worker_foldl_release _ _

theorem inStep_closeAll (hs : p.worker.InStep idle) (fault : Option IoError) :
    (p.closeAll fault).worker.InStep idle ∧ (p.closeAll fault).worker.connections.keys = [] := by
  rw [worker_closeAll]
  exact foldl_teardown hs rfl

end Workplace

/-- One thing that a worker does between two looks at its tables, or that other threads
do to what it shares with them. -/
inductive WorkStep where
  | adoptPending (now : Nat) (calls : Calls)
  | dispatch (now : Nat) (event : Event) (calls : Calls)
  | expireIdle (now : Nat)
  | closeAll (fault : Option IoError)
  | elsewhere (inbox : Inbox Pending) (shared : Shared)

namespace WorkStep

def act (h : Handler) (cfg : Config) (p : Workplace) : WorkStep → Workplace
  | adoptPending now calls => p.adoptPending cfg now calls
  | dispatch now event calls => (p.dispatch h cfg now event calls).place
  | expireIdle now => (p.expireIdle now).2
  | closeAll fault => p.closeAll fault
  | elsewhere inbox shared => { p with inbox, shared }

def run (h : Handler) (cfg : Config) (p : Workplace) (steps : List WorkStep) : Workplace :=
  steps.foldl (act h cfg) p

variable {h : Handler} {cfg : Config} {p : Workplace}

theorem inStep_act (hs : p.worker.InStep cfg.idleTimeout) (step : WorkStep) :
    (step.act h cfg p).worker.InStep cfg.idleTimeout := by
  cases step with
  | adoptPending now calls => exact Workplace.inStep_adoptPending hs now calls
  | dispatch now event calls => exact Workplace.inStep_dispatch hs h now event calls
  | expireIdle now => exact Workplace.inStep_expireIdle hs now
  | closeAll fault => exact (Workplace.inStep_closeAll hs fault).1
  | elsewhere inbox shared => exact hs

theorem inStep_run (hs : p.worker.InStep cfg.idleTimeout) (steps : List WorkStep) :
    (run h cfg p steps).worker.InStep cfg.idleTimeout := by
  induction steps generalizing p with
  | nil => exact hs
  | cons step steps ih => exact ih (inStep_act hs step)

end WorkStep

/-- The tables as sets and lists of descriptors: watched, timed and connected are the same. -/
structure Worker.TablesAgree (idle : Option Nat) (w : Worker) : Prop where
  watched : {fd | fd ∈ w.watches.keys} \ {w.wakeupFd} = {fd | fd ∈ w.connections.keys}
  distinct : w.connections.keys.Nodup
  timed : idle.isSome = true → (w.timers.entries.toList.map (·.key)).Perm w.connections.keys
  untimed : idle = none → w.timers.isEmpty = true

theorem Worker.InStep.isEmpty_timers {idle : Option Nat} {w : Worker} (hs : w.InStep idle)
    (hn : ∀ fd ∈ w.connections.keys, idle = none) : w.timers.isEmpty = true := by
  cases hp : w.timers.peek? with
  | none => exact beq_iff_eq.mpr (TimerHeap.peek?_eq_none_iff.mp hp)
  | some e =>
    have hc := hs.reachable.sound.indexed.contains_iff.mpr ⟨e, TimerHeap.mem_of_peek? hp, rfl⟩
    obtain ⟨hi, hk⟩ := (hs.timed e.key).mp hc
    rw [hn e.key hk] at hi
    cases hi

theorem Worker.InStep.tablesAgree {idle : Option Nat} {w : Worker} (hs : w.InStep idle) :
    w.TablesAgree idle where
  watched := by
    refine Set.ext fun fd => ⟨fun ⟨hw, hne⟩ => ?_, fun hk => ⟨?_, hs.ne_wakeupFd hk⟩⟩
    · exact ((hs.watched fd).mp hw).resolve_left hne
    · exact (hs.watched fd).mpr (Or.inr hk)
  distinct := hs.nodup
  timed := by
    intro hi
    have hx := hs.reachable.sound.indexed
    rw [List.perm_ext_iff_of_nodup hx.nodup_keys hs.nodup]
    intro fd
    have ht := hs.timed fd
    rw [hi, eq_self, true_and, hx.contains_iff] at ht
    rw [← ht, List.mem_map]
    exact exists_congr fun e => and_congr_left fun _ => Array.mem_toList_iff
  untimed := fun hi => hs.isEmpty_timers fun _ _ => hi

/-- Whatever a worker has done, its tables agree; and closing all leaves nothing but the
wakeup. -/
theorem WorkStep.run_tablesAgree (h : Handler) (cfg : Config) (wakeupFd : Fd)
    (inbox : Inbox Pending) (shared : Shared) (steps : List WorkStep) :
    (run h cfg ⟨.start wakeupFd, inbox, shared⟩ steps).worker.TablesAgree cfg.idleTimeout ∧
      ∀ fault, ((run h cfg ⟨.start wakeupFd, inbox, shared⟩ steps).closeAll fault).worker.connections.keys = [] ∧
        ((run h cfg ⟨.start wakeupFd, inbox, shared⟩ steps).closeAll fault).worker.timers.isEmpty = true := by
  have hs : (run h cfg ⟨.start wakeupFd, inbox, shared⟩ steps).worker.InStep cfg.idleTimeout :=
    inStep_run (Worker.inStep_start wakeupFd) steps
  refine ⟨hs.tablesAgree, fun fault => ?_⟩
  obtain ⟨hs', hk⟩ := Workplace.inStep_closeAll hs fault
  refine ⟨hk, hs'.isEmpty_timers fun fd hfd => ?_⟩
  rw [hk] at hfd
  cases hfd

end EventHttp
