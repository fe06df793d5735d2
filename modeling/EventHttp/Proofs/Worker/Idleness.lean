import EventHttp.Proofs.Worker.Deadlines

/-! Who is idle, and since when.  A worker is run by a clock that never goes back, and next to
it stands a record of the lives of its connections: when each was taken in, and when it was
read or written since.  The deadlines in the heap are those of the record. -/

namespace EventHttp

structure Life where
  since : Nat
  served : List Nat
  deriving DecidableEq

namespace Life

def latest (l : Life) : Nat :=
  l.served.foldr max l.since

def goOn (now : Nat) (served : Bool) : Option Life → Life
  | none => ⟨now, []⟩
  | some l => if served then { l with served := now :: l.served } else l

theorem since_le_latest (l : Life) : l.since ≤ l.latest := by
  obtain ⟨since, served⟩ := l
  induction served with
  | nil => exact le_rfl
  | cons now served ih => exact ih.trans (le_max_right now _)

theorem latest_goOn {l : Life} {now : Nat} (hl : l.latest ≤ now) :
    (goOn now true (some l)).latest = now :=
  max_eq_left hl

end Life

def Event.serves (e : Event) : Bool :=
  !e.isHangupOrError && (e.isReadable || e.isWritable)

inductive VigilStep where
  | adopt (socket : Pending) (faults : AdoptFaults)
  | dispatch (event : Event) (calls : Calls)
  | expireIdle
  | closeAll (fault : Option IoError)
  | elsewhere (inbox : Inbox Pending) (shared : Shared)

namespace VigilStep

def act (h : Handler) (cfg : Config) (now : Nat) (p : Workplace) : VigilStep → Workplace
  | adopt socket faults => p.adopt cfg now socket faults
  | dispatch event calls => (p.dispatch h cfg now event calls).place
  | expireIdle => (p.expireIdle now).2
  | closeAll fault => p.closeAll fault
  | elsewhere inbox shared => { p with inbox, shared }

def serves : VigilStep → Fd → Bool
  | dispatch event _, fd => event.fd == fd && event.serves
  | _, _ => false

end VigilStep

namespace Workplace

open Worker

variable {h : Handler} {cfg : Config} {p p' : Workplace} {fd g : Fd} {now : Nat}

theorem mem_keys_of_view_eq (hv : p'.worker.view g = p.worker.view g)
    (hg : g ∈ p'.worker.connections.keys) : g ∈ p.worker.connections.keys := by
  rw [mem_keys_iff_view] at hg ⊢
  rwa [← hv]

theorem not_mem_keys_of_gone (hv : p.worker.view g = goneView) : g ∉ p.worker.connections.keys := by
  rw [mem_keys_iff_view, hv]
  exact Bool.false_ne_true

theorem concludedView_cases (cfg : Config) (w : Written) (fault : Option IoError)
    (due : Option Nat) :
    concludedView cfg w fault due = goneView ∨ (concludedView cfg w fault due).2 = due := by
  unfold concludedView
  split
  · exact Or.inr rfl
  · exact Or.inr rfl
  · exact Or.inl rfl

/-- Those who are open after a step have a deadline from now if they were taken in or served by
it, and else the one they had. -/
def DueAfter (cfg : Config) (now : Nat) (served : Fd → Bool) (p p' : Workplace) : Prop :=
  ∀ g ∈ p'.worker.connections.keys, p'.worker.timers.deadline? g =
    if g ∈ p.worker.connections.keys ∧ served g = false then p.worker.timers.deadline? g
    else cfg.dueFrom now

theorem TakesIn.dueAfter {served : Fd → Bool} (ht : TakesIn cfg now p p')
    (hs : ∀ g ∈ p.worker.connections.keys, served g = false) : DueAfter cfg now served p p' := by
  intro g hg
  by_cases hk : g ∈ p.worker.connections.keys
  · rw [if_pos ⟨hk, hs g hk⟩]
    exact congrArg Prod.snd (ht.others g hk)
  · rw [if_neg fun hh => hk hh.1]
    exact ht.fresh g hg hk

theorem dueAfter_of_view {served : Fd → Bool}
    (hv : ∀ g ∈ p'.worker.connections.keys, served g = false ∧ p'.worker.view g = p.worker.view g) :
    DueAfter cfg now served p p' := by
  intro g hg
  obtain ⟨hs, hview⟩ := hv g hg
  rw [if_pos ⟨mem_keys_of_view_eq hview hg, hs⟩]
  exact congrArg Prod.snd hview

theorem serve?_isSome (h : Handler) (s : Shared) (c : Connection) (e : Event) (calls : Calls) :
    (serve? h s c e calls).isSome = (e.isReadable || e.isWritable) := by
  unfold serve?
  cases e.isReadable <;> cases e.isWritable <;> rfl

theorem deadline?_dispatch_self {e : Event} (hs : p.worker.InStep cfg.idleTimeout) (h : Handler)
    (now : Nat) (calls : Calls) (hw : e.fd ≠ p.worker.wakeupFd)
    (hk : e.fd ∈ p.worker.connections.keys)
    (hg : e.fd ∈ (p.dispatch h cfg now e calls).place.worker.connections.keys) :
    (p.dispatch h cfg now e calls).place.worker.timers.deadline? e.fd =
      if e.serves = false then p.worker.timers.deadline? e.fd else cfg.dueFrom now := by
  obtain ⟨c, hc⟩ := exists_get? hk
  have hview := view_dispatch_self hs h now calls hw hc
  rw [Event.serves, ← serve?_isSome h p.shared c e calls]
  by_cases hhangup : e.isHangupOrError = true
  · rw [if_pos hhangup] at hview
    exact absurd hg (not_mem_keys_of_gone hview)
  · rw [if_neg hhangup] at hview
    rw [Bool.not_eq_true] at hhangup
    rw [hhangup, Bool.not_false, Bool.true_and]
    cases hserve : serve? h p.shared c e calls with
    | none =>
      rw [hserve] at hview
      exact (congrArg Prod.snd hview).trans (if_pos rfl).symm
    | some w =>
      rw [hserve] at hview
      rw [if_neg fun hh => Bool.noConfusion hh]
      rcases concludedView_cases cfg w calls.rearm (cfg.dueFrom now) with hgone | hdue
      · exact absurd hg (not_mem_keys_of_gone (hview.trans hgone))
      · exact (congrArg Prod.snd hview).trans hdue

theorem dueAfter_dispatch (hs : p.worker.InStep cfg.idleTimeout) (h : Handler) (now : Nat)
    (e : Event) (calls : Calls) :
    DueAfter cfg now (VigilStep.dispatch e calls).serves p (p.dispatch h cfg now e calls).place := by
  have hother (g : Fd) (hne : g ≠ e.fd) : (VigilStep.dispatch e calls).serves g = false :=
    Bool.and_eq_false_imp.mpr fun he => (hne (beq_iff_eq.mp he).symm).elim
  by_cases hw : e.fd = p.worker.wakeupFd
  · rw [dispatch, if_pos hw]
    refine (takesIn_adoptPending hs now calls).dueAfter fun g hg => hother g ?_
    exact hw ▸ hs.ne_wakeupFd hg
  · intro g hg
    by_cases hne : g = e.fd
    · subst hne
      have hserves : (VigilStep.dispatch e calls).serves e.fd = e.serves := by
        rw [VigilStep.serves, beq_self_eq_true, Bool.true_and]
      have hk : e.fd ∈ p.worker.connections.keys := by
        rcases dispatch_cases h cfg now p e calls with ⟨he, -⟩ | he | ⟨hk, -⟩
        · exact absurd he hw
        · exact he ▸ hg
        · exact hk
      rw [hserves, deadline?_dispatch_self hs h now calls hw hk hg]
      exact if_congr (and_iff_right hk).symm rfl rfl
    · have hview := view_dispatch_of_ne hs h now calls hw hne
      rw [if_pos ⟨mem_keys_of_view_eq hview hg, hother g hne⟩]
      exact congrArg Prod.snd hview

end Workplace

namespace VigilStep

variable {h : Handler} {cfg : Config} {p : Workplace}

theorem inStep_act (hs : p.worker.InStep cfg.idleTimeout) (h : Handler) (now : Nat)
    (step : VigilStep) : (step.act h cfg now p).worker.InStep cfg.idleTimeout := by
  cases step with
  | adopt socket faults => exact Workplace.inStep_adopt hs now socket faults
  | dispatch event calls => exact Workplace.inStep_dispatch hs h now event calls
  | expireIdle => exact Workplace.inStep_expireIdle hs now
  | closeAll fault => exact (Workplace.inStep_closeAll hs fault).1
  | elsewhere inbox shared => exact hs

theorem dueAfter_act (hs : p.worker.InStep cfg.idleTimeout) (h : Handler) (now : Nat)
    (step : VigilStep) : Workplace.DueAfter cfg now step.serves p (step.act h cfg now p) := by
  cases step with
  | adopt socket faults => exact (Workplace.takesIn_adopt hs now socket faults).dueAfter fun _ _ => rfl
  | dispatch event calls => exact Workplace.dueAfter_dispatch hs h now event calls
  | expireIdle =>
    refine Workplace.dueAfter_of_view fun g hg => ⟨rfl, Workplace.view_expireIdle_of_not_isDue hs ?_⟩
    exact fun hd => Workplace.not_mem_keys_of_gone (Workplace.view_expireIdle_of_isDue hs hd) hg
  | closeAll fault =>
    have hnone := (Workplace.inStep_closeAll hs fault).2
    refine Workplace.dueAfter_of_view fun g hg => absurd hg ?_
    exact hnone ▸ List.not_mem_nil
  | elsewhere inbox shared => exact Workplace.dueAfter_of_view fun _ _ => ⟨rfl, rfl⟩

end VigilStep

structure Vigil where
  place : Workplace
  now : Nat
  lives : Fd → Option Life

namespace Vigil

def start (now : Nat) (wakeupFd : Fd) (inbox : Inbox Pending) (shared : Shared) : Vigil :=
  ⟨⟨.start wakeupFd, inbox, shared⟩, now, fun _ => none⟩

def step (h : Handler) (cfg : Config) (v : Vigil) (next : Nat × VigilStep) : Vigil :=
  let now := v.now + next.1
  let place := next.2.act h cfg now v.place
  ⟨place, now, fun fd =>
    if fd ∈ place.worker.connections.keys then some (Life.goOn now (next.2.serves fd) (v.lives fd))
    else none⟩

def run (h : Handler) (cfg : Config) (v : Vigil) (steps : List (Nat × VigilStep)) : Vigil :=
  steps.foldl (step h cfg) v

variable {h : Handler} {cfg : Config} {v : Vigil} {fd : Fd} {life : Life} {idle : Nat}

structure Kept (cfg : Config) (v : Vigil) : Prop where
  inStep : v.place.worker.InStep cfg.idleTimeout
  alive : ∀ fd, (v.lives fd).isSome = true ↔ fd ∈ v.place.worker.connections.keys
  due : ∀ fd life, v.lives fd = some life →
    v.place.worker.timers.deadline? fd = cfg.dueFrom life.latest
  past : ∀ fd life, v.lives fd = some life → life.latest ≤ v.now

theorem kept_start (now : Nat) (wakeupFd : Fd) (inbox : Inbox Pending) (shared : Shared) :
    (start now wakeupFd inbox shared).Kept cfg where
  inStep := Worker.inStep_start wakeupFd
  alive := fun _ => ⟨fun hs => (nomatch hs), fun hk => (nomatch hk)⟩
  due := fun _ _ hl => (nomatch hl)
  past := fun _ _ hl => (nomatch hl)

theorem Kept.mem_keys (hk : v.Kept cfg) (hl : v.lives fd = some life) :
    fd ∈ v.place.worker.connections.keys :=
  (hk.alive fd).mp (hl ▸ rfl)

theorem lives_step_eq_some_iff {next : Nat × VigilStep} :
    (v.step h cfg next).lives fd = some life ↔
      fd ∈ (v.step h cfg next).place.worker.connections.keys ∧
        Life.goOn (v.now + next.1) (next.2.serves fd) (v.lives fd) = life := by
  unfold step
  dsimp only
  rw [Option.ite_none_right_eq_some, Option.some_inj]

theorem Kept.due_step (hk : v.Kept cfg) (h : Handler) (next : Nat × VigilStep)
    (hl : (v.step h cfg next).lives fd = some life) :
    (v.step h cfg next).place.worker.timers.deadline? fd = cfg.dueFrom life.latest ∧
      life.latest ≤ v.now + next.1 := by
  obtain ⟨hmem, rfl⟩ := lives_step_eq_some_iff.mp hl
  have hdue := VigilStep.dueAfter_act hk.inStep h (v.now + next.1) next.2 fd hmem
  cases hlife : v.lives fd with
  | none =>
    have hnew : fd ∉ v.place.worker.connections.keys := by
      rw [← hk.alive, hlife]
      exact Bool.false_ne_true
    exact ⟨hdue.trans (if_neg fun hh => hnew hh.1), le_rfl⟩
  | some old =>
    have hle := (hk.past fd old hlife).trans (Nat.le_add_right v.now next.1)
    cases hserved : next.2.serves fd with
    | true =>
      rw [Life.latest_goOn hle]
      exact ⟨hdue.trans (if_neg fun hh => Bool.noConfusion (hserved.symm.trans hh.2)), le_rfl⟩
    | false =>
      exact ⟨hdue.trans ((if_pos ⟨hk.mem_keys hlife, hserved⟩).trans (hk.due fd old hlife)), hle⟩

theorem Kept.step (hk : v.Kept cfg) (h : Handler) (next : Nat × VigilStep) :
    (v.step h cfg next).Kept cfg where
  inStep := VigilStep.inStep_act hk.inStep h _ next.2
  alive := by
    intro fd
    rw [Option.isSome_iff_exists]
    constructor
    · rintro ⟨life, hl⟩
      exact (lives_step_eq_some_iff.mp hl).1
    · exact fun hmem => ⟨_, lives_step_eq_some_iff.mpr ⟨hmem, rfl⟩⟩
  due := fun fd life hl => (hk.due_step h next hl).1
  past := fun fd life hl => (hk.due_step h next hl).2

theorem Kept.run (hk : v.Kept cfg) (h : Handler) (steps : List (Nat × VigilStep)) :
    (v.run h cfg steps).Kept cfg := by
  induction steps generalizing v with
  | nil => exact hk
  | cons next steps ih => exact ih (hk.step h next)

structure Evicts (idle now : Nat) (v : Vigil) : Prop where
  closes : ∃ fds : List Fd, fds.Nodup ∧
    (∀ fd, fd ∈ fds ↔ ∃ life, v.lives fd = some life ∧ life.latest + idle ≤ now) ∧
    (v.place.expireIdle now).2 = fds.foldl Workplace.teardown v.place ∧
    (v.place.expireIdle now).2.shared.counters = Counters.closed^[fds.length] v.place.shared.counters
  gone : ∀ fd life, v.lives fd = some life → life.latest + idle ≤ now →
    (v.place.expireIdle now).2.worker.view fd = Worker.goneView
  stays : ∀ fd life, v.lives fd = some life → now < life.latest + idle →
    (v.place.expireIdle now).2.worker.view fd = v.place.worker.view fd
  timeout_none : (v.place.expireIdle now).1 = none ↔
    (v.place.expireIdle now).2.worker.connections.keys = []
  timeout_some : ∀ wait, (v.place.expireIdle now).1 = some wait → 0 < wait ∧
    IsLeast {due | ∃ fd ∈ (v.place.expireIdle now).2.worker.connections.keys,
      (v.place.expireIdle now).2.worker.timers.deadline? fd = some due} (now + wait)

/-- Each deadline is the idle time after the last activity of its own connection, nobody else
has one, and closing the idle goes by these. -/
structure Exact (idle : Nat) (v : Vigil) : Prop where
  alive : ∀ fd, (v.lives fd).isSome = true ↔ fd ∈ v.place.worker.connections.keys
  deadline : ∀ fd life, v.lives fd = some life →
    v.place.worker.timers.deadline? fd = some (life.latest + idle)
  untimed : ∀ fd, v.lives fd = none → v.place.worker.timers.deadline? fd = none
  evicts : ∀ now, v.Evicts idle now
  own : ∀ now fd life, v.lives fd = some life →
    fd ∉ (v.place.expireIdle now).2.worker.connections.keys → life.since + idle ≤ now

theorem Kept.deadline (hk : v.Kept cfg) (hi : cfg.idleTimeout = some idle)
    (hl : v.lives fd = some life) :
    v.place.worker.timers.deadline? fd = some (life.latest + idle) := by
  rw [hk.due fd life hl, Config.dueFrom, hi]
  rfl

theorem Kept.isDue_iff (hk : v.Kept cfg) (hi : cfg.idleTimeout = some idle) {now : Nat} :
    v.place.worker.timers.IsDue now fd ↔
      ∃ life, v.lives fd = some life ∧ life.latest + idle ≤ now := by
  constructor
  · rintro ⟨due, hd, hle⟩
    cases hl : v.lives fd with
    | none =>
      have hnot : fd ∉ v.place.worker.connections.keys := by
        rw [← hk.alive, hl]
        exact Bool.false_ne_true
      cases (hk.inStep.deadline?_eq_none hnot).symm.trans hd
    | some life =>
      cases (hk.deadline hi hl).symm.trans hd
      exact ⟨life, rfl, hle⟩
  · rintro ⟨life, hl, hle⟩
    exact ⟨_, hk.deadline hi hl, hle⟩

theorem Kept.evicts (hk : v.Kept cfg) (hi : cfg.idleTimeout = some idle) (now : Nat) :
    v.Evicts idle now := by
  have hs' := Workplace.inStep_expireIdle hk.inStep now
  have hsome : cfg.idleTimeout.isSome = true := hi ▸ rfl
  obtain ⟨hnone, hwait⟩ := Workplace.expireIdle_timeout hk.inStep now
  constructor
  case closes =>
    obtain ⟨fds, hn, hmem, hkeys, he⟩ := Workplace.expireIdle_eq_foldl hk.inStep now
    refine ⟨fds, hn, fun fd => (hmem fd).trans (hk.isDue_iff hi), he, ?_⟩
    rw [he, Workplace.shared_foldl_teardown hn hkeys]
  case gone =>
    intro fd life hl hle
    exact Workplace.view_expireIdle_of_isDue hk.inStep ((hk.isDue_iff hi).mpr ⟨life, hl, hle⟩)
  case stays =>
    intro fd life hl hlt
    refine Workplace.view_expireIdle_of_not_isDue hk.inStep fun hd => ?_
    obtain ⟨life', hl', hle⟩ := (hk.isDue_iff hi).mp hd
    cases hl.symm.trans hl'
    exact Nat.not_le_of_lt hlt hle
  case timeout_none => exact hnone.trans (hs'.isEmpty_timers_iff hsome)
  case timeout_some =>
    intro wait hw
    obtain ⟨hpos, hleast⟩ := hwait wait hw
    have hset : {due | ∃ fd ∈ (v.place.expireIdle now).2.worker.connections.keys,
        (v.place.expireIdle now).2.worker.timers.deadline? fd = some due} =
        {due | ∃ fd, (v.place.expireIdle now).2.worker.timers.deadline? fd = some due} :=
      Set.ext fun due => exists_congr fun fd => and_iff_right_of_imp hs'.mem_keys_of_deadline?
    exact ⟨hpos, hset ▸ hleast⟩

theorem Kept.exact (hk : v.Kept cfg) (hi : cfg.idleTimeout = some idle) : v.Exact idle where
  alive := hk.alive
  deadline := fun _ _ => hk.deadline hi
  untimed := by
    intro fd hl
    refine hk.inStep.deadline?_eq_none fun hmem => ?_
    rw [← hk.alive, hl] at hmem
    cases hmem
  evicts := hk.evicts hi
  own := by
    intro now fd life hl hgone
    by_contra hlt
    have hstays := (hk.evicts hi now).stays fd life hl
      ((Nat.lt_of_not_le hlt).trans_le (Nat.add_le_add_right life.since_le_latest idle))
    exact hgone (Workplace.mem_keys_of_view_eq hstays.symm (hk.mem_keys hl))

/-- Whatever has happened, in whatever order: the idle are closed by their own last activity.
A connection that a step takes in has a life and a deadline of its own from then on, whoever had
its descriptor before. -/
theorem run_exact (h : Handler) (cfg : Config) {idle : Nat} (hi : cfg.idleTimeout = some idle)
    (now : Nat) (wakeupFd : Fd) (inbox : Inbox Pending) (shared : Shared)
    (steps : List (Nat × VigilStep)) :
    let v := (start now wakeupFd inbox shared).run h cfg steps
    v.Exact idle ∧ ∀ next fd, v.lives fd = none →
      fd ∈ (v.step h cfg next).place.worker.connections.keys →
        (v.step h cfg next).lives fd = some ⟨v.now + next.1, []⟩ ∧
          (v.step h cfg next).place.worker.timers.deadline? fd = some (v.now + next.1 + idle) := by
  intro v
  have hk : v.Kept cfg := (kept_start now wakeupFd inbox shared).run h steps
  refine ⟨hk.exact hi, fun next fd hnone hmem => ?_⟩
  have hlife : (v.step h cfg next).lives fd = some ⟨v.now + next.1, []⟩ :=
    lives_step_eq_some_iff.mpr ⟨hmem, by rw [hnone, Life.goOn]⟩
  exact ⟨hlife, (hk.step h next).deadline hi hlife⟩

/-- Of two connections with one descriptor, the second is closed by its own deadline. -/
theorem run_exact_reused :
    let v := (start 0 3 .empty ⟨.empty Credentials.spread, .zero, []⟩).run
      ⟨fun _ => .notFound, none⟩ (Config.standard 1)
      [(5, .adopt ⟨7, "a"⟩ ⟨none, none⟩), (10, .dispatch ⟨7, Event.hangupBit⟩ ⟨none, [], [], [], none⟩),
        (7, .adopt ⟨7, "b"⟩ ⟨none, none⟩)]
    (Config.standard 1).idleTimeout = some 60000000000 ∧ v.lives 7 = some ⟨22, []⟩ ∧
      v.place.worker.timers.deadline? 7 = some 60000000022 ∧
      (v.place.expireIdle 60000000015).2.worker.view 7 = v.place.worker.view 7 ∧
      (v.place.expireIdle 60000000022).2.worker.view 7 = Worker.goneView := by
  intro v
  have hi : (Config.standard 1).idleTimeout = some 60000000000 := rfl
  have hlife : v.lives 7 = some ⟨22, []⟩ := by decide
  obtain ⟨hv, -⟩ := run_exact ⟨fun _ => .notFound, none⟩ (Config.standard 1) hi 0 3 .empty
    ⟨.empty Credentials.spread, .zero, []⟩ [(5, .adopt ⟨7, "a"⟩ ⟨none, none⟩),
      (10, .dispatch ⟨7, Event.hangupBit⟩ ⟨none, [], [], [], none⟩), (7, .adopt ⟨7, "b"⟩ ⟨none, none⟩)]
  exact ⟨hi, hlife, hv.deadline 7 _ hlife, (hv.evicts _).stays 7 _ hlife (by decide),
    (hv.evicts _).gone 7 _ hlife (by decide)⟩

end Vigil
end EventHttp
