import EventHttp.Proofs.Worker.Arming

/-! What a worker keeps of a descriptor, its deadline included, and what becomes of it as
sockets are adopted, events are served and idle connections are closed.  The heap is
rearranged by every one of these; the deadlines of the others are not. -/

namespace EventHttp

namespace TimerHeap

variable {κ τ : Type} [BEq κ] [Hashable κ] [LawfulBEq κ] {h : TimerHeap κ τ} {key k : κ}

theorem Sound.isSome_deadline? (hs : h.Sound) (k : κ) :
    (h.deadline? k).isSome = h.contains k := by
  rw [Bool.eq_iff_iff, Option.isSome_iff_exists, hs.indexed.contains_iff]
  constructor
  · rintro ⟨due, hd⟩
    obtain ⟨e, he, hk, -⟩ := hs.deadline?_eq_some_iff.mp hd
    exact ⟨e, he, hk⟩
  · rintro ⟨e, he, hk⟩
    exact ⟨e.due, hs.deadline?_eq_some_iff.mpr ⟨e, he, hk, rfl⟩⟩

theorem Sound.deadline?_insert_self (hs : h.Sound) (now : Nat) (key : κ) (timeout : Nat) (payload : τ) :
    (h.insert now key timeout payload).deadline? key = some (now + timeout) := by
  obtain ⟨hs', hm⟩ := insert_spec hs now key timeout payload
  exact hs'.deadline?_eq_some_iff.mpr ⟨_, (hm _).mpr (Or.inl rfl), rfl, rfl⟩

theorem Sound.deadline?_renew_self (hs : h.Sound) (hk : h.contains key = true) (now timeout : Nat) :
    (h.renew now key timeout).2.deadline? key = some (now + timeout) := by
  obtain ⟨-, hs', hm⟩ := renew_spec hs now key timeout
  obtain ⟨e, he, hk⟩ := hs.indexed.contains_iff.mp hk
  exact hs'.deadline?_eq_some_iff.mpr ⟨_, (hm _).mpr (Or.inl ⟨e, he, hk, rfl⟩), hk, rfl⟩

omit [LawfulBEq κ] in
theorem Sound.deadline?_congr {h' : TimerHeap κ τ} (hs : h.Sound) (hs' : h'.Sound)
    (hm : ∀ e, e.key = k → (e ∈ h'.entries ↔ e ∈ h.entries)) : h'.deadline? k = h.deadline? k := by
  refine Option.ext fun due => ?_
  rw [hs.deadline?_eq_some_iff, hs'.deadline?_eq_some_iff]
  refine exists_congr fun e => ?_
  rw [and_left_comm, and_left_comm (a := e ∈ h.entries)]
  exact and_congr_right fun hk => and_congr_left fun _ => hm e hk

theorem Sound.deadline?_insert_of_ne (hs : h.Sound) (hne : k ≠ key) (now timeout : Nat) (payload : τ) :
    (h.insert now key timeout payload).deadline? k = h.deadline? k := by
  obtain ⟨hs', hm⟩ := insert_spec hs now key timeout payload
  refine hs.deadline?_congr hs' ?_
  rintro e rfl
  rw [hm, and_iff_left hne, or_iff_right]
  rintro rfl
  exact hne rfl

theorem Sound.deadline?_renew_of_ne (hs : h.Sound) (hne : k ≠ key) (now timeout : Nat) :
    (h.renew now key timeout).2.deadline? k = h.deadline? k := by
  obtain ⟨-, hs', hm⟩ := renew_spec hs now key timeout
  refine hs.deadline?_congr hs' ?_
  rintro e rfl
  rw [hm, and_iff_left hne, or_iff_right]
  rintro ⟨d, -, hk, rfl⟩
  exact hne hk

theorem Sound.deadline?_cancel_of_ne (hs : h.Sound) (hne : k ≠ key) :
    (h.cancel key).2.deadline? k = h.deadline? k := by
  obtain ⟨-, hs', hm⟩ := cancel_spec hs key
  refine hs.deadline?_congr hs' ?_
  rintro e rfl
  rw [hm, and_iff_left hne]

end TimerHeap

def Config.dueFrom (cfg : Config) (now : Nat) : Option Nat :=
  cfg.idleTimeout.map (now + ·)

namespace Worker

def view (w : Worker) (fd : Fd) : (Option Interest × Option Connection) × Option Nat :=
  (w.slot fd, w.timers.deadline? fd)

def goneView : (Option Interest × Option Connection) × Option Nat :=
  ((none, none), none)

variable {idle : Option Nat} {w : Worker} {fd : Fd}

theorem mem_keys_iff_view : fd ∈ w.connections.keys ↔ (w.view fd).1.2.isSome = true :=
  Table.contains_iff_mem_keys.symm

theorem InStep.deadline?_eq_none (hs : w.InStep idle) (hn : fd ∉ w.connections.keys) :
    w.timers.deadline? fd = none := by
  rw [← Option.not_isSome_iff_eq_none, hs.reachable.sound.isSome_deadline?, hs.timed]
  exact fun hk => hn hk.2

theorem InStep.mem_keys_of_deadline? (hs : w.InStep idle) {due : Nat}
    (hd : w.timers.deadline? fd = some due) : fd ∈ w.connections.keys := by
  by_contra hn
  cases (hs.deadline?_eq_none hn).symm.trans hd

theorem InStep.isEmpty_timers_iff (hs : w.InStep idle) (hi : idle.isSome = true) :
    w.timers.isEmpty = true ↔ w.connections.keys = [] := by
  constructor
  · intro he
    refine List.eq_nil_iff_forall_not_mem.mpr fun fd hk => ?_
    obtain ⟨e, hmem, -⟩ := hs.reachable.sound.indexed.contains_iff.mp ((hs.timed fd).mpr ⟨hi, hk⟩)
    obtain ⟨i, hget⟩ := TimerHeap.mem_entries_iff.mp hmem
    have hsize : w.timers.size = 0 := beq_iff_eq.mp he
    exact absurd (TimerHeap.lt_size_of_getElem? hget) (hsize ▸ Nat.not_lt_zero i)
  · intro hk
    refine hs.isEmpty_timers fun fd hfd => ?_
    rw [hk] at hfd
    cases hfd

theorem deadline?_enrol {cfg : Config} (hs : w.InStep cfg.idleTimeout) (now : Nat) {s : Pending}
    (hn : s.fd ∉ w.connections.keys) (g : Fd) :
    (w.enrol cfg now s).timers.deadline? g =
      if g = s.fd then cfg.dueFrom now else w.timers.deadline? g := by
  have hsound := hs.reachable.sound
  have hnone := hs.deadline?_eq_none hn
  rw [enrol, Config.dueFrom]
  by_cases he : g = s.fd
  · rw [if_pos he, he]
    cases cfg.idleTimeout with
    | none => exact hnone
    | some timeout => exact hsound.deadline?_insert_self now s.fd timeout _
  · rw [if_neg he]
    cases cfg.idleTimeout with
    | none => rfl
    | some timeout => exact hsound.deadline?_insert_of_ne he now timeout _

end Worker

namespace Workplace

open Worker

variable {h : Handler} {cfg : Config} {idle : Option Nat} {p p' : Workplace} {fd g : Fd} {now : Nat}

theorem view_teardown (hs : p.worker.InStep idle) (fd g : Fd) :
    (p.teardown fd).worker.view g = if g = fd then goneView else p.worker.view g := by
  have hdue : (p.teardown fd).worker.timers.deadline? g =
      if g = fd then none else p.worker.timers.deadline? g := by
    rw [worker_teardown]
    split
    · rename_i he
      rw [he]
      exact hs.reachable.sound.deadline?_cancel_self fd
    · rename_i hne
      exact hs.reachable.sound.deadline?_cancel_of_ne hne
  rw [view, slot_teardown, hdue]
  split <;> rfl

theorem view_touch (hs : p.worker.InStep cfg.idleTimeout) (hk : fd ∈ p.worker.connections.keys)
    (now : Nat) (g : Fd) :
    (p.touch cfg now fd).worker.view g =
      (p.worker.slot g, if g = fd then cfg.dueFrom now else p.worker.timers.deadline? g) := by
  have hsound := hs.reachable.sound
  have htimed := hs.timed fd
  refine Prod.ext (slot_touch cfg now p fd g) ?_
  rw [view, touch, Config.dueFrom]
  cases hi : cfg.idleTimeout with
  | none =>
    have hnone : p.worker.timers.deadline? fd = none := by
      rw [← Option.not_isSome_iff_eq_none, hsound.isSome_deadline?, htimed, hi]
      exact fun hh => (nomatch hh.1)
    dsimp only
    split
    · rename_i he
      rw [he]
      exact hnone
    · rfl
  | some timeout =>
    have hc : p.worker.timers.contains fd = true := htimed.mpr ⟨hi ▸ rfl, hk⟩
    dsimp only
    split
    · rename_i he
      rw [he]
      exact hsound.deadline?_renew_self hc now timeout
    · rename_i hne
      exact hsound.deadline?_renew_of_ne hne now timeout

def armedView (cfg : Config) (w : Written) (wanted : Interest) (due : Option Nat) :
    (Option Interest × Option Connection) × Option Nat :=
  ((some (cfg.connectionInterest ||| wanted), some w.connection), due)

def concludedView (cfg : Config) (w : Written) (fault : Option IoError) (due : Option Nat) :
    (Option Interest × Option Connection) × Option Nat :=
  match w.outcome, fault with
  | .ok .read, none => armedView cfg w .readable due
  | .ok .write, none => armedView cfg w .writable due
  | _, _ => goneView

theorem view_conclude_of_ne (hs : p.worker.InStep idle) (hk : fd ∈ p.worker.connections.keys)
    (hne : g ≠ fd) (w : Written) (fault : Option IoError) :
    (p.conclude cfg fd w fault).worker.view g = p.worker.view g := by
  refine Prod.ext (slot_conclude_of_ne hne w fault) ?_
  rcases conclude_cases cfg p fd w fault with he | ⟨next, -, wanted, -, he⟩
  · have hdown := view_teardown (inStep_store hs hk w.connection w.shared) fd g
    have hdue := congrArg Prod.snd (hdown.trans (if_neg hne))
    rw [he]
    exact hdue
  · rw [he]
    rfl

theorem view_conclude_self (cfg : Config) (hs : p.worker.InStep idle)
    (hk : fd ∈ p.worker.connections.keys) (w : Written) (fault : Option IoError) :
    (p.conclude cfg fd w fault).worker.view fd =
      concludedView cfg w fault (p.worker.timers.deadline? fd) := by
  have hstored := inStep_store hs hk w.connection w.shared
  have hdown : ((p.store fd w.connection w.shared).teardown fd).worker.view fd = goneView :=
    (view_teardown hstored fd fd).trans (if_pos rfl)
  have hwatched : (p.store fd w.connection w.shared).worker.watches.contains fd = true :=
    Table.contains_iff_mem_keys.mpr ((hs.watched fd).mpr (Or.inr hk))
  have harm (wanted : Interest) :
      { (p.store fd w.connection w.shared).worker with
        watches := (p.store fd w.connection w.shared).worker.watches.put fd
          (cfg.connectionInterest ||| wanted) }.view fd =
        armedView cfg w wanted (p.worker.timers.deadline? fd) := by
    rw [view, slot, store, Table.get?_put, Table.get?_put, if_pos rfl, if_pos rfl]
    rfl
  unfold conclude concludedView
  cases w.outcome with
  | error e => exact hdown
  | ok next =>
    dsimp only
    unfold rearm
    cases next with
    | close => exact hdown
    | read | write =>
      dsimp only [Watches.reregister]
      rw [hwatched, if_pos rfl]
      cases fault with
      | none => exact harm _
      | some e => exact hdown

def serve? (h : Handler) (s : Shared) (c : Connection) (e : Event) (calls : Calls) : Option Written :=
  if e.isReadable then some (c.take h s calls.reads)
  else if e.isWritable then some (c.write h s calls.writes)
  else none

theorem dispatch_eq {e : Event} {c : Connection} (h : Handler) (cfg : Config) (now : Nat)
    (calls : Calls) (hw : e.fd ≠ p.worker.wakeupFd) (hc : p.worker.connections.get? e.fd = some c) :
    p.dispatch h cfg now e calls =
      if e.isHangupOrError then ⟨p.teardown e.fd, []⟩
      else match serve? h p.shared c e calls with
        | none => ⟨p, []⟩
        | some w => ⟨(p.touch cfg now e.fd).conclude cfg e.fd w calls.rearm, w.sent⟩ := by
  have hcontains : p.worker.connections.contains e.fd = true :=
    Table.contains_iff_mem_keys.mpr (Table.mem_keys_of_get? hc)
  rw [dispatch, if_neg hw, hcontains, Bool.not_true, if_neg Bool.false_ne_true]
  unfold serve?
  split
  · rfl
  · split
    · dsimp only
      rw [onReadable_eq h cfg now calls hc, Connection.sent_take]
    · split
      · exact onWritable_eq h cfg now calls hc
      · rfl

theorem view_dispatch_self {e : Event} {c : Connection} (hs : p.worker.InStep cfg.idleTimeout)
    (h : Handler) (now : Nat) (calls : Calls) (hw : e.fd ≠ p.worker.wakeupFd)
    (hc : p.worker.connections.get? e.fd = some c) :
    (p.dispatch h cfg now e calls).place.worker.view e.fd =
      if e.isHangupOrError then goneView
      else match serve? h p.shared c e calls with
        | none => p.worker.view e.fd
        | some w => concludedView cfg w calls.rearm (cfg.dueFrom now) := by
  have hk := Table.mem_keys_of_get? hc
  rw [dispatch_eq h cfg now calls hw hc]
  split
  · exact (view_teardown hs e.fd e.fd).trans (if_pos rfl)
  · cases serve? h p.shared c e calls with
    | none => rfl
    | some w =>
      have htouched := congrArg Prod.snd (view_touch hs hk now e.fd)
      have hview := view_conclude_self cfg (inStep_touch hs cfg now e.fd)
        ((touch_connections cfg now p e.fd).symm ▸ hk) w calls.rearm
      exact hview.trans (congrArg (concludedView cfg w calls.rearm) (htouched.trans (if_pos rfl)))

theorem view_dispatch_of_ne {e : Event} (hs : p.worker.InStep cfg.idleTimeout) (h : Handler)
    (now : Nat) (calls : Calls) (hw : e.fd ≠ p.worker.wakeupFd) (hne : g ≠ e.fd) :
    (p.dispatch h cfg now e calls).place.worker.view g = p.worker.view g := by
  cases hc : p.worker.connections.get? e.fd with
  | none =>
    have hunknown : p.worker.connections.contains e.fd = false := by
      rw [Table.contains, hc]
      rfl
    rw [dispatch, if_neg hw, hunknown, Bool.not_false, if_pos rfl]
  | some c =>
    have hk := Table.mem_keys_of_get? hc
    rw [dispatch_eq h cfg now calls hw hc]
    split
    · exact (view_teardown hs e.fd g).trans (if_neg hne)
    · split
      · rfl
      · have htouched := inStep_touch hs cfg now e.fd
        have hk' : e.fd ∈ (p.touch cfg now e.fd).worker.connections.keys :=
          (touch_connections cfg now p e.fd).symm ▸ hk
        refine (view_conclude_of_ne htouched hk' hne _ _).trans ?_
        rw [view_touch hs hk, if_neg hne]
        rfl

structure TakesIn (cfg : Config) (now : Nat) (p p' : Workplace) : Prop where
  inStep : p'.worker.InStep cfg.idleTimeout
  others : ∀ g ∈ p.worker.connections.keys, p'.worker.view g = p.worker.view g
  fresh : ∀ g ∈ p'.worker.connections.keys, g ∉ p.worker.connections.keys →
    p'.worker.timers.deadline? g = cfg.dueFrom now

theorem TakesIn.mem_keys (ht : TakesIn cfg now p p') (hg : g ∈ p.worker.connections.keys) :
    g ∈ p'.worker.connections.keys := by
  rw [mem_keys_iff_view, ht.others g hg]
  exact mem_keys_iff_view.mp hg

theorem TakesIn.refl (hs : p.worker.InStep cfg.idleTimeout) : TakesIn cfg now p p :=
  ⟨hs, fun _ _ => rfl, fun _ hg hn => (hn hg).elim⟩

theorem TakesIn.trans {q : Workplace} (hp : TakesIn cfg now p p') (hq : TakesIn cfg now p' q) :
    TakesIn cfg now p q where
  inStep := hq.inStep
  others := fun g hg => (hq.others g (hp.mem_keys hg)).trans (hp.others g hg)
  fresh := by
    intro g hg hn
    by_cases hmid : g ∈ p'.worker.connections.keys
    · exact (congrArg Prod.snd (hq.others g hmid)).trans (hp.fresh g hmid hn)
    · exact hq.fresh g hg hmid

theorem takesIn_adopt (hs : p.worker.InStep cfg.idleTimeout) (now : Nat) (s : Pending)
    (faults : AdoptFaults) : TakesIn cfg now p (p.adopt cfg now s faults) := by
  have hs' := inStep_adopt hs now s faults
  rcases adopt_cases cfg now p s faults with he | ⟨hn, he⟩
  · rw [he] at hs' ⊢
    exact ⟨hs', fun _ _ => rfl, fun g hg hnot => (hnot hg).elim⟩
  · have hnot : s.fd ∉ p.worker.connections.keys := fun hk => hn ((hs.watched _).mpr (Or.inr hk))
    have hdue := deadline?_enrol hs now hnot
    rw [he] at hs' ⊢
    refine ⟨hs', fun g hg => ?_, fun g hg hng => ?_⟩
    · have hne : g ≠ s.fd := fun he => hnot (he ▸ hg)
      exact Prod.ext ((slot_enrol cfg now p.worker s g).trans (if_neg hne))
        ((hdue g).trans (if_neg hne))
    · have hg : g = s.fd := (Table.mem_keys_put_iff.mp hg).resolve_right hng
      exact (hdue g).trans (if_pos hg)

theorem takesIn_adoptAll (hs : p.worker.InStep cfg.idleTimeout) (now : Nat) (batch : List Pending)
    (faults : List AdoptFaults) : TakesIn cfg now p (adoptAll cfg now p batch faults) := by
  induction batch generalizing p faults with
  | nil => exact .refl hs
  | cons s rest ih =>
    cases faults with
    | nil =>
      have hone := takesIn_adopt hs now s ⟨none, none⟩
      exact hone.trans (ih hone.inStep [])
    | cons f faults =>
      have hone := takesIn_adopt hs now s f
      exact hone.trans (ih hone.inStep faults)

theorem takesIn_adoptPending (hs : p.worker.InStep cfg.idleTimeout) (now : Nat) (calls : Calls) :
    TakesIn cfg now p (p.adoptPending cfg now calls) := by
  unfold adoptPending
  split
  · exact ⟨hs, fun _ _ => rfl, fun g hg hn => (hn hg).elim⟩
  · rename_i pending inbox hd
    have htaken := takesIn_adoptAll (p := { p with inbox }) hs now pending calls.adopt
    exact ⟨htaken.inStep, htaken.others, htaken.fresh⟩

theorem mem_keys_teardown {fds : List Fd} (hn : fd ∉ fds)
    (hk : ∀ g ∈ fd :: fds, g ∈ p.worker.connections.keys) :
    ∀ g ∈ fds, g ∈ (p.teardown fd).worker.connections.keys := by
  intro g hg
  rw [connections_teardown, Table.mem_keys_erase_iff]
  exact ⟨hk g (List.mem_cons_of_mem fd hg), fun he => hn (he ▸ hg)⟩

theorem view_foldl_teardown (hs : p.worker.InStep idle) {fds : List Fd} (hn : fds.Nodup)
    (hk : ∀ fd ∈ fds, fd ∈ p.worker.connections.keys) (g : Fd) :
    (fds.foldl teardown p).worker.view g = if g ∈ fds then goneView else p.worker.view g := by
  induction fds generalizing p with
  | nil => exact (if_neg List.not_mem_nil).symm
  | cons fd rest ih =>
    obtain ⟨hfd, hrest⟩ := List.nodup_cons.mp hn
    have hs' := inStep_teardown hs (hk fd List.mem_cons_self)
    have hview := view_teardown hs fd g
    rw [List.foldl_cons, ih hs' hrest (mem_keys_teardown hfd hk), hview]
    by_cases hg : g = fd
    · rw [if_pos hg, ite_self, if_pos (hg ▸ List.mem_cons_self)]
    · rw [if_neg hg]
      exact if_congr (List.mem_cons.trans (or_iff_right hg)).symm rfl rfl

theorem shared_foldl_teardown {fds : List Fd} (hn : fds.Nodup)
    (hk : ∀ fd ∈ fds, fd ∈ p.worker.connections.keys) :
    (fds.foldl teardown p).shared =
      { p.shared with counters := Counters.closed^[fds.length] p.shared.counters } := by
  induction fds generalizing p with
  | nil => rfl
  | cons fd rest ih =>
    obtain ⟨hfd, hrest⟩ := List.nodup_cons.mp hn
    have hopen := Table.contains_iff_mem_keys.mpr (hk fd List.mem_cons_self)
    have hshared : (p.teardown fd).shared =
        { p.shared with counters := p.shared.counters.closed } := by
      rw [teardown]
      dsimp only
      rw [hopen, if_pos rfl]
    rw [List.foldl_cons, ih hrest (mem_keys_teardown hfd hk), hshared]
    rfl

theorem cancelsAtMost_onIdle : TimerHeap.CancelsAtMost onIdle :=
  fun timers fd action p => Or.inl (timers_onIdle timers fd action p)

theorem state_fireTurns (hs : p.worker.InStep idle) (now turns : Nat) (neglected : List Fd) :
    (TimerHeap.fireTurns now onIdle turns ⟨p.worker.timers, p, neglected⟩).state =
      ((TimerHeap.calls now onIdle turns ⟨p.worker.timers, p, neglected⟩).map
        (·.key)).foldl teardown p := by
  induction turns generalizing p with
  | zero => rfl
  | succ turns ih =>
    cases he : p.worker.timers.dueRoot? now with
    | none =>
      rw [TimerHeap.fireTurns_of_none he, TimerHeap.calls_of_none he, List.map_nil, List.foldl_nil]
    | some e =>
      rw [TimerHeap.fireTurns_of_some he, TimerHeap.calls_of_some he, fireEntry_onIdle hs.reachable,
        ih (inStep_teardown hs (mem_keys_of_dueRoot? hs he)), List.map_cons, List.foldl_cons]

theorem expireIdle_eq_foldl (hs : p.worker.InStep idle) (now : Nat) :
    ∃ fds : List Fd, fds.Nodup ∧ (∀ fd, fd ∈ fds ↔ p.worker.timers.IsDue now fd) ∧
      (∀ fd ∈ fds, fd ∈ p.worker.connections.keys) ∧
      (p.expireIdle now).2 = fds.foldl teardown p := by
  have hsound := hs.reachable.sound
  have hdue := cancelsAtMost_onIdle.firesDue (f := ⟨p.worker.timers, p, []⟩) hsound
    (Nat.le_add_right (p.worker.timers.dueCount now) 0)
  have hkeys := hdue.perm.map (·.key)
  have hmem (fd : Fd) : fd ∈ (TimerHeap.calls now onIdle (p.worker.timers.dueCount now + 0)
      ⟨p.worker.timers, p, []⟩).map (·.key) ↔ p.worker.timers.IsDue now fd := by
    rw [hkeys.mem_iff, hsound.isDue_iff_mem]
  refine ⟨_, hkeys.nodup_iff.mpr hsound.nodup_dueEntries, hmem, fun fd hfd => ?_, ?_⟩
  · obtain ⟨e, he, hk, -⟩ := hsound.isDue_iff.mp ((hmem fd).mp hfd)
    exact ((hs.timed fd).mp (hsound.indexed.contains_iff.mpr ⟨e, he, hk⟩)).2
  · rw [expireIdle_state hs]
    exact state_fireTurns hs now _ []

theorem view_expireIdle_of_isDue (hs : p.worker.InStep idle)
    (hd : p.worker.timers.IsDue now g) : (p.expireIdle now).2.worker.view g = goneView := by
  obtain ⟨fds, hn, hmem, hk, he⟩ := expireIdle_eq_foldl hs now
  rw [he, view_foldl_teardown hs hn hk, if_pos ((hmem g).mpr hd)]

theorem view_expireIdle_of_not_isDue (hs : p.worker.InStep idle)
    (hd : ¬ p.worker.timers.IsDue now g) : (p.expireIdle now).2.worker.view g = p.worker.view g := by
  obtain ⟨fds, hn, hmem, hk, he⟩ := expireIdle_eq_foldl hs now
  rw [he, view_foldl_teardown hs hn hk, if_neg fun hg => hd ((hmem g).mp hg)]

theorem expireIdle_timeout (hs : p.worker.InStep idle) (now : Nat) :
    ((p.expireIdle now).1 = none ↔ (p.expireIdle now).2.worker.timers.isEmpty = true) ∧
      ∀ wait, (p.expireIdle now).1 = some wait → 0 < wait ∧
        IsLeast {due | ∃ fd, (p.expireIdle now).2.worker.timers.deadline? fd = some due}
          (now + wait) := by
  have hprogressive : TimerHeap.Progressive now onIdle ⟨p.worker.timers, p, []⟩ :=
    cancelsAtMost_onIdle.progressive hs.reachable
  have hout := hprogressive.firesOut hs.reachable 0
  rw [expireIdle_eq]
  exact ⟨hout.timeout_none, hout.timeout_some⟩

theorem view_closeAll (hs : p.worker.InStep idle) (hg : g ∈ p.worker.connections.keys)
    (fault : Option IoError) : (p.closeAll fault).worker.view g = goneView := by
  rw [worker_closeAll, view_foldl_teardown hs hs.nodup fun _ => id, if_pos hg]

end Workplace
end EventHttp
