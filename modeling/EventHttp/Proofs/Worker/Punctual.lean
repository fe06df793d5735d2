import EventHttp.Polling.Timeout
import EventHttp.Proofs.Worker.Deadlines
import Mathlib.Data.List.Permutation

/-! Waiting for the next deadline.  What firing returns is rounded up to milliseconds, so a wait
that runs its time ends when a deadline has passed, and less than a millisecond after it.  The next
pass then has something to fire: nobody waits in vain, and nobody too long. -/

namespace EventHttp

theorem Poller.isLeast_millis (wait : Nat) :
    IsLeast {ms : Nat | wait ≤ ms * 1000000} ((wait + 999999) / 1000000) := by
  constructor
  · change wait ≤ (wait + 999999) / 1000000 * 1000000
    omega
  · intro ms hms
    have hms : wait ≤ ms * 1000000 := hms
    omega

namespace TimerHeap

variable {κ τ σ : Type} [BEq κ] [Hashable κ] {h : TimerHeap κ τ} {now wait : Nat}
  {onExpire : OnExpire κ τ σ} {f fired : Fired κ τ σ}

def Returns (now : Nat) (onExpire : OnExpire κ τ σ) (f fired : Fired κ τ σ) : Prop :=
  fired.heap.dueRoot? now = none ∧ ∃ turns, fireTurns now onExpire turns f = fired

def Operates (onExpire : OnExpire κ τ σ) : Prop :=
  ∀ h key payload state, h.Reachable → (onExpire h key payload state).1.Reachable

structure WaitsFor (h : TimerHeap κ τ) (now wait millis : Nat) : Prop where
  asked : Poller.timeoutMillis (some wait) = millis
  word : ∀ d : Duration, d.toNanos = wait → (Poller.timeoutWord (some d)).toInt = millis
  wait_pos : 0 < wait
  millis_pos : 0 < millis
  least : ∃ whole, IsLeast {ms : Nat | wait ≤ ms * 1000000} whole ∧ millis = min whole Poller.maxMillis
  fires : wait ≤ Poller.maxMillis * 1000000 → ∀ later, now + millis * 1000000 ≤ later →
    (∃ e ∈ h.entries, e.due ≤ later) ∧
      ∀ {σ : Type} (onExpire : OnExpire κ τ σ) (state : σ) (extra : Nat),
        calls later onExpire (h.dueCount later + extra) ⟨h, state, []⟩ ≠ []
  inTime : ∀ e ∈ h.entries, now + millis * 1000000 < e.due + 1000000

/-- Without a deadline a wait has no end, and it waits for the earliest if there is one. -/
structure Punctual (h : TimerHeap κ τ) (now : Nat) : Prop where
  none_iff : h.nextTimeout now = none ↔ h.isEmpty = true
  unbounded_iff : Poller.timeoutMillis (h.nextTimeout now) = -1 ↔ h.isEmpty = true
  word_none : (Poller.timeoutWord none).toInt = -1
  timed : ∀ wait, h.nextTimeout now = some wait → ∃ millis, h.WaitsFor now wait millis

theorem calls_ne_nil {e : TimerEntry κ τ} (he : h.dueRoot? now = some e)
    (onExpire : OnExpire κ τ σ) (state : σ) (extra : Nat) :
    calls now onExpire (h.dueCount now + extra) ⟨h, state, []⟩ ≠ [] := by
  have hcount : h.dueCount now ≠ 0 := fun hc =>
    Option.some_ne_none e (he.symm.trans (dueRoot?_eq_none_of_dueCount hc))
  obtain ⟨turns, hturns⟩ : ∃ turns, h.dueCount now + extra = turns + 1 :=
    Nat.exists_eq_succ_of_ne_zero (by omega)
  rw [hturns, calls_of_some (f := ⟨h, state, []⟩) he]
  exact List.cons_ne_nil _ _

theorem Sound.waitsFor (hs : h.Sound) (hn : h.dueRoot? now = none)
    (hw : h.nextTimeout now = some wait) :
    h.WaitsFor now wait (min ((wait + 999999) / 1000000) Poller.maxMillis) := by
  obtain ⟨root, hpeek, rfl⟩ := Option.map_eq_some_iff.mp hw
  have hroot := mem_of_peek? hpeek
  have hlt := hs.lt_of_dueRoot?_eq_none hn hroot
  have hmax : Poller.maxMillis = 2147483647 := rfl
  constructor
  case asked => rfl
  case word =>
    intro d hd
    rw [Poller.toInt_timeoutWord, Option.map_some, hd]
    rfl
  case wait_pos => omega
  case millis_pos => omega
  case least => exact ⟨_, Poller.isLeast_millis _, rfl⟩
  case fires =>
    intro huncapped later hlater
    have hdue : root.due ≤ later := by omega
    exact ⟨⟨root, hroot, hdue⟩, calls_ne_nil (dueRoot?_eq_some_iff.mpr ⟨hpeek, hdue⟩)⟩
  case inTime =>
    intro e he
    have hfirst : root.due ≤ e.due := hs.ordered.peek_le hpeek he
    omega

theorem Sound.punctual (hs : h.Sound) (hn : h.dueRoot? now = none) : h.Punctual now where
  none_iff := nextTimeout_eq_none_iff
  unbounded_iff := by
    have hempty : h.nextTimeout now = none ↔ h.isEmpty = true := nextTimeout_eq_none_iff
    rw [← hempty]
    cases hw : h.nextTimeout now with
    | none => exact iff_of_true rfl rfl
    | some wait =>
      have hasked := (hs.waitsFor hn hw).asked
      exact iff_of_false (by omega) (Option.some_ne_none wait)
  word_none := rfl
  timed := fun _ hw => ⟨_, hs.waitsFor hn hw⟩

theorem Operates.reachable_fireEntry (ho : Operates onExpire) (hr : f.heap.Reachable) (now : Nat)
    (e : TimerEntry κ τ) : (fireEntry now onExpire e f).heap.Reachable := by
  have hafter := ho f.heap e.key e.payload f.state hr
  by_cases hd : (onExpire f.heap e.key e.payload f.state).1.IsDue now e.key
  · rw [fireEntry_heap_of_isDue hd]
    exact hafter.cancel e.key
  · rwa [fireEntry_heap_of_not_isDue hd]

theorem Returns.punctual [LawfulBEq κ] (hf : Returns now onExpire f fired) (ho : Operates onExpire)
    (hr : f.heap.Reachable) : fired.heap.Punctual now := by
  obtain ⟨hsettled, turns, rfl⟩ := hf
  have hreachable := fireTurns_invariant (P := fun f : Fired κ τ σ => f.heap.Reachable) hr
    (fun f e hr _ => ho.reachable_fireEntry hr now e) turns
  exact hreachable.sound.punctual hsettled

end TimerHeap

namespace Workplace

variable {h : Handler} {cfg : Config} {idle : Option Nat} {p : Workplace} {now : Nat}

/-- How a worker goes by its deadlines: after it has closed what was idle at `now` it waits for
what is left, and once such a wait has run its time, it closes somebody. -/
structure Paces (p : Workplace) (now : Nat) : Prop where
  timeout : (p.expireIdle now).1 = (p.expireIdle now).2.worker.timers.nextTimeout now
  punctual : (p.expireIdle now).2.worker.timers.Punctual now
  closes : ∀ wait millis later : Nat, (p.expireIdle now).1 = some wait →
    wait ≤ Poller.maxMillis * 1000000 → Poller.timeoutMillis (some wait) = millis →
    now + millis * 1000000 ≤ later →
    ∃ fd ∈ (p.expireIdle now).2.worker.connections.keys,
      fd ∉ ((p.expireIdle now).2.expireIdle later).2.worker.connections.keys

theorem returns_onIdle (hs : p.worker.InStep idle) (now : Nat) :
    TimerHeap.Returns now onIdle ⟨p.worker.timers, p, []⟩ (p.worker.timers.fire now onIdle p 0) := by
  have hprogressive : TimerHeap.Progressive now onIdle ⟨p.worker.timers, p, []⟩ :=
    cancelsAtMost_onIdle.progressive hs.reachable
  exact ⟨(hprogressive.firesOut hs.reachable 0).settled, _, rfl⟩

theorem timeout_expireIdle_of_none (hn : p.worker.timers.dueRoot? now = none) :
    (p.expireIdle now).1 = p.worker.timers.nextTimeout now := by
  have hfire : p.worker.timers.fire now onIdle p 0 = ⟨p.worker.timers, p, []⟩ :=
    TimerHeap.fireTurns_of_none hn _
  exact congrArg (fun fired => fired.heap.nextTimeout now) hfire

theorem operates_onIdle : TimerHeap.Operates onIdle := by
  intro timers fd action p hr
  rw [timers_onIdle]
  exact hr.cancel fd

theorem not_mem_keys_expireIdle (hs : p.worker.InStep idle) {fd : Fd}
    (hd : p.worker.timers.IsDue now fd) : fd ∉ (p.expireIdle now).2.worker.connections.keys := by
  rw [Worker.mem_keys_iff_view, view_expireIdle_of_isDue hs hd]
  exact Bool.false_ne_true

theorem paces_of_inStep (hs : p.worker.InStep idle) (now : Nat) : p.Paces now := by
  have hpunctual : (p.expireIdle now).2.worker.timers.Punctual now :=
    (returns_onIdle hs now).punctual operates_onIdle hs.reachable
  refine ⟨rfl, hpunctual, fun wait millis later hwait huncapped hmillis hlater => ?_⟩
  have hs' := inStep_expireIdle hs now
  obtain ⟨asked, hfor⟩ := hpunctual.timed wait hwait
  obtain rfl : asked = millis := Int.ofNat_inj.mp (hfor.asked.symm.trans hmillis)
  obtain ⟨⟨e, he, hle⟩, -⟩ := hfor.fires huncapped later hlater
  have hdue : (p.expireIdle now).2.worker.timers.IsDue later e.key :=
    hs'.reachable.sound.isDue_iff.mpr ⟨e, he, rfl, hle⟩
  have hopen := hs'.reachable.sound.indexed.contains_iff.mpr ⟨e, he, rfl⟩
  exact ⟨e.key, ((hs'.timed e.key).mp hopen).2, not_mem_keys_expireIdle hs' hdue⟩

end Workplace

/-- Firing that returns leaves a heap by which a thread waits neither in vain nor too long, whatever
the callbacks did with it.  So does a worker's, and each wait that runs its time closes somebody. -/
theorem TimerHeap.fire_punctual :
    (∀ (κ τ σ : Type) [BEq κ] [Hashable κ] [LawfulBEq κ] (now : Nat) (onExpire : OnExpire κ τ σ)
      (f fired : Fired κ τ σ), f.heap.Reachable → Operates onExpire → Returns now onExpire f fired →
        fired.heap.Punctual now) ∧
    ∀ (h : Handler) (cfg : Config) (wakeupFd : Fd) (inbox : Inbox Pending) (shared : Shared)
      (steps : List WorkStep) (now : Nat),
        (WorkStep.run h cfg ⟨.start wakeupFd, inbox, shared⟩ steps).Paces now :=
  ⟨fun _ _ _ _ _ _ _ _ _ _ hr ho hf => hf.punctual ho hr,
    fun _ _ wakeupFd _ _ steps now =>
      Workplace.paces_of_inStep (WorkStep.inStep_run (Worker.inStep_start wakeupFd) steps) now⟩

/-- What is a nanosecond more than a millisecond away is waited for in two; and a worker that took
in a connection at 40 closes it after the wait that it asks for at 41. -/
theorem TimerHeap.fire_punctual_nat :
    let ops : List (TimerOp Nat String) := [.insert 0 1 5 "a", .insert 0 2 1000007 "b"]
    let h := (TimerOp.run TimerOp.onHeap .empty ops).2
    let cancelling : OnExpire Nat String (List Nat) := fun h key _ log =>
      ((h.cancel key).2, log ++ [key])
    let fired := h.fire 6 cancelling [] 0
    let inbox : Inbox Pending := Inbox.empty.push ⟨8, "10.0.0.1:4000"⟩
    let p := WorkStep.run ⟨fun _ => .notFound, none⟩ (Config.standard 1)
      ⟨.start 3, inbox, ⟨.empty Credentials.spread, .zero, []⟩⟩
      [.adoptPending 40 ⟨none, [], [], [], none⟩]
    (h.Reachable ∧ Operates cancelling ∧ Returns 6 cancelling ⟨h, [], []⟩ fired ∧
      fired.heap.Punctual 6 ∧ fired.heap.nextTimeout 6 = some 1000001 ∧
      Poller.timeoutMillis (some 1000001) = 2) ∧
    p.Paces 41 ∧ (p.expireIdle 41).1 = some 59999999999 ∧
      ∃ fd ∈ (p.expireIdle 41).2.worker.connections.keys,
        fd ∉ ((p.expireIdle 41).2.expireIdle 60000000041).2.worker.connections.keys := by
  intro ops h cancelling fired inbox p
  have hr : h.Reachable := ⟨ops, rfl⟩
  have ho : Operates cancelling := fun _ key _ _ hr => hr.cancel key
  have hf : Returns 6 cancelling ⟨h, [], []⟩ fired := by
    refine ⟨?_, _, rfl⟩
    unfold fired cancelling h ops
    cbv
  have hnext : fired.heap.nextTimeout 6 = some 1000001 := by
    unfold fired cancelling h ops
    cbv
  have hpaces : p.Paces 41 := fire_punctual.2 ⟨fun _ => .notFound, none⟩ (Config.standard 1) 3
    inbox ⟨.empty Credentials.spread, .zero, []⟩ [.adoptPending 40 ⟨none, [], [], [], none⟩] 41
  have htimers : p.worker.timers = TimerHeap.empty.insert 40 8 60000000000 .closeIdle := rfl
  have hwait : (p.expireIdle 41).1 = some 59999999999 := by
    rw [Workplace.timeout_expireIdle_of_none (by rw [htimers]; cbv), htimers]
    cbv
  exact ⟨⟨hr, ho, hf, fire_punctual.1 _ _ _ _ _ _ _ hr ho hf, hnext, rfl⟩, hpaces, hwait,
    hpaces.closes 59999999999 60000 60000000041 hwait (by decide) rfl (by decide)⟩

end EventHttp
