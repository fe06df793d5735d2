import EventHttp.Proofs.Crew.Descent
import Mathlib.Data.Nat.Pairing

/-! A server does not outlive a thread that has failed.  Once one has ended and the flag is raised
on that account, all the others end, whatever the system answers and however they are interleaved,
and whoever waits for them is told the first error in their order.  This holds of a thread that
has panicked as soon as it is come to; until then nobody else learns of it. -/

namespace EventHttp

/-- What brings a system to a goal: a rank that falls with every turn of one party, which gets its
turns, and that no other party raises. -/
structure Descent {S R : Type} [LT R] (states : Nat → S) (own : Nat → Prop) (Inv Goal : S → Prop)
    (rank : S → R) (start : Nat) : Prop where
  turn : ∀ n, start ≤ n → Inv (states n) → ∃ m, n ≤ m ∧ own m
  step : ∀ n, start ≤ n → Inv (states n) → Goal (states (n + 1)) ∨ Inv (states (n + 1)) ∧
    (rank (states (n + 1)) < rank (states n) ∨ ¬ own n ∧ rank (states (n + 1)) = rank (states n))

theorem Descent.exists_goal {S R : Type} [LT R] [WellFoundedLT R] {states : Nat → S}
    {own : Nat → Prop} {Inv Goal : S → Prop} {rank : S → R} {start : Nat}
    (hd : Descent states own Inv Goal rank start) {n : Nat} (hn : start ≤ n)
    (hi : Inv (states n)) : ∃ m, n ≤ m ∧ Goal (states m) := by
  generalize hr : rank (states n) = r
  induction r using WellFoundedLT.induction generalizing n with
  | ind r ih =>
    obtain ⟨m, hm, hown⟩ := hd.turn n hn hi
    -- until the next turn of its own, either the rank falls and `ih` applies, or it stays
    have hwait : ∀ m, n ≤ m → (∃ m', n ≤ m' ∧ Goal (states m')) ∨
        Inv (states m) ∧ rank (states m) = r := by
      intro m hm
      induction m, hm using Nat.le_induction with
      | base => exact Or.inr ⟨hi, hr⟩
      | succ m hm ihm =>
        rcases ihm with hgoal | ⟨him, hrm⟩
        · exact Or.inl hgoal
        · rcases hd.step m (hn.trans hm) him with hgoal | ⟨hnext, hlt | ⟨-, heq⟩⟩
          · exact Or.inl ⟨m + 1, Nat.le_succ_of_le hm, hgoal⟩
          · obtain ⟨m', hm', hgoal⟩ := ih _ (hrm ▸ hlt) (Nat.le_succ_of_le (hn.trans hm)) hnext rfl
            exact Or.inl ⟨m', (Nat.le_succ_of_le hm).trans hm', hgoal⟩
          · exact Or.inr ⟨hnext, heq.trans hrm⟩
    rcases hwait m hm with hgoal | ⟨him, hrm⟩
    · exact hgoal
    · rcases hd.step m (hn.trans hm) him with hgoal | ⟨hnext, hlt | ⟨hother, -⟩⟩
      · exact ⟨m + 1, Nat.le_succ_of_le hm, hgoal⟩
      · obtain ⟨m', hm', hgoal⟩ := ih _ (hrm ▸ hlt) (Nat.le_succ_of_le (hn.trans hm)) hnext rfl
        exact ⟨m', (Nat.le_succ_of_le hm).trans hm', hgoal⟩
      · exact absurd hown hother

namespace RollCall

variable {h : Handler} {cfg : Config} {k : RollCall} {m : RollMove} {c : Caller} {t : Nat}
  {how : ThreadEnd}

theorem calls_call_of_ne (k : RollCall) {c c' : Caller} (hc : c' ≠ c) :
    (k.call c).alarm.calls c'.number = k.alarm.calls c'.number :=
  k.alarm.calls_callMove_of_ne fun he => hc (Caller.number_injective he)

theorem Kept.calls_step_of_not_isBy (hk : k.Kept cfg) (h : Handler) (hm : ¬ m.isBy cfg c) :
    (k.step h cfg m).alarm.calls c.number = k.alarm.calls c.number := by
  have hsteps := k.steps h m hk.size
  generalize k.step h cfg m = k' at hsteps
  cases hsteps with
  | stays | ends | join => rfl
  | act hmove hmover =>
    have hcalls := (k.alarm.calls_and_raised_step h cfg (AlarmMove.ne_call_of_mover? hmover)).1
    exact congrFun hcalls _
  | call hby =>
    refine calls_call_of_ne k ?_
    rintro rfl
    exact hm hby
  | beside hmover hno =>
    have hcalls := (k.alarm.calls_and_raised_step h cfg hno).1
    exact congrFun hcalls _

theorem Kept.step_eq_call (hk : k.Kept cfg) (h : Handler) (hm : m.isBy cfg c)
    (hbegun : k.alarm.calls c.number ≠ .raising)
    (hnot : ∀ b, k.alarm.calls c.number ≠ .returned b) : k.step h cfg m = k.call c := by
  cases c with
  | owner n =>
    have hmove : m = .owner n := hm
    rw [hmove]
    rfl
  | thread t =>
    obtain ⟨e, hended | ⟨hrun, hout⟩⟩ := hk.asked (.thread t) hbegun
    · obtain ⟨b, hb⟩ := hk.failed t e hended
      exact absurd hb (hnot b)
    · have hleave : k.leave t (some e) = k.call (.thread t) := by
        rw [RollCall.leave]
        split
        · rename_i b hb
          exact absurd hb (hnot b)
        · rfl
        · rfl
      have hmove : m.thread? cfg = some t := hm
      -- a thread that asks is out of its loop, so its next move is a part of the call
      cases m with
      | worker i r wait =>
        rw [RollMove.thread?] at hmove
        split at hmove
        · rename_i hlt
          obtain rfl := Option.some.inj hmove
          rw [Alarm.IsOut, if_neg (Nat.ne_of_lt hlt)] at hout
          obtain ⟨w, hseat⟩ := hout
          obtain ⟨s, hi, hs⟩ := Option.map_eq_some_iff.mp hseat
          have hstage : s.stage = .left := (Prod.mk.inj hs).1
          rw [RollCall.step, hi]
          dsimp only
          rw [proceed, hrun]
          dsimp only
          rw [if_pos (decide_eq_true hstage)]
          exact hleave
        · cases hmove
      | acceptor r =>
        obtain rfl := Option.some.inj hmove
        rw [Alarm.isOut_acceptor_iff] at hout
        rw [RollCall.step, proceed, hrun]
        dsimp only
        rw [if_pos (decide_eq_true hout)]
        exact hleave
      | panic | owner | join | elsewhere | outside => cases hmove
  | visitor t =>
    obtain ⟨hpanicked, hpassed | ⟨first, hj⟩⟩ := hk.asked (.visitor t) hbegun
    · obtain ⟨how, hended, hcall⟩ := hk.passed t (hk.within t _ hpanicked) hpassed
      obtain ⟨b, hb⟩ := hcall (ThreadStage.ended.inj (hended.symm.trans hpanicked))
      exact absurd hb (hnot b)
    · -- a panic that has not been passed is the one at which the visitor waits
      have hmove : m = .join := hm
      rw [hmove, RollCall.step, RollCall.joinMove, hj]
      dsimp only
      rw [if_pos (hk.within t _ hpanicked), hpanicked]
      dsimp only
      split
      · rfl
      · rfl
      · rename_i hraising hwaking
        cases hc : k.alarm.calls (Caller.visitor t).number with
        | raising => exact absurd hc hbegun
        | waking i => exact (hwaking i rfl hc).elim
        | returned b => exact absurd hc (hnot b)

theorem Kept.ended_step (hk : k.Kept cfg) (ht : k.threads t = .ended how) (h : Handler)
    (m : RollMove) : (k.step h cfg m).threads t = .ended how := by
  have hne {t' : Nat} {fault : Option ServerError} (hrun : k.threads t' = .running fault) :
      t ≠ t' := by
    rintro rfl
    cases ht.symm.trans hrun
  have hsteps := k.steps h m hk.size
  generalize k.step h cfg m = k' at hsteps
  cases hsteps with
  | act _ _ hrun =>
    rw [threads_act, if_neg (hne hrun)]
    exact ht
  | ends hrun =>
    rw [threads_ends, if_neg (hne hrun)]
    exact ht
  | stays | call | join | beside => exact ht

theorem Kept.joining_step (hk : k.Kept cfg) (h : Handler) (hm : m ≠ .join) :
    (k.step h cfg m).joining = k.joining := by
  have hsteps := k.steps h m hk.size
  generalize k.step h cfg m = k' at hsteps
  cases hsteps with
  | join he => exact absurd he hm
  | stays | act | ends | call | beside => rfl

theorem Kept.calls_step_of_returned (hk : k.Kept cfg) {n : Nat} {b : Bool}
    (hn : k.alarm.calls n = .returned b) (h : Handler) (m : RollMove) :
    (k.step h cfg m).alarm.calls n = .returned b := by
  have hsteps := k.steps h m hk.size
  generalize k.step h cfg m = k' at hsteps
  cases hsteps with
  | stays | ends | join => exact hn
  | act => exact Alarm.calls_step_of_returned hn h cfg _
  | call => exact Alarm.calls_callMove_of_returned hn _
  | beside => exact Alarm.calls_step_of_returned hn h cfg _

theorem Kept.hasRaised_step (hk : k.Kept cfg) {n : Nat}
    (hn : (k.alarm.calls n).hasRaised = true) (h : Handler) (m : RollMove) :
    ((k.step h cfg m).alarm.calls n).hasRaised = true := by
  have hsteps := k.steps h m hk.size
  generalize k.step h cfg m = k' at hsteps
  cases hsteps with
  | stays | ends | join => exact hn
  | act => exact Alarm.hasRaised_step hn h cfg _
  | call => exact Alarm.hasRaised_callMove hn _
  | beside => exact Alarm.hasRaised_step hn h cfg _

def after (h : Handler) (cfg : Config) (k : RollCall) (schedule : Nat → RollMove) : Nat → RollCall
  | 0 => k
  | n + 1 => (after h cfg k schedule n).step h cfg (schedule n)

theorem Kept.after (hk : k.Kept cfg) (h : Handler) (schedule : Nat → RollMove) (n : Nat) :
    (k.after h cfg schedule n).Kept cfg := by
  induction n with
  | zero => exact hk
  | succ n ih => exact ih.step h _

/-- Every thread gets its turns, and so has whoever has begun to ask the server to stop, and
whoever waits for the threads; and clients stop coming at some time. -/
structure Orderly (h : Handler) (cfg : Config) (k : RollCall) (schedule : Nat → RollMove) : Prop where
  thread : ∀ t ≤ cfg.workerCount, ∀ n, ∃ m, n ≤ m ∧ (schedule m).thread? cfg = some t
  owner : ∀ i n, (k.after h cfg schedule n).alarm.calls (Caller.owner i).number ≠ .raising →
    ∃ m, n ≤ m ∧ schedule m = .owner i
  join : ∀ n, ∃ m, n ≤ m ∧ schedule m = .join
  quiet : ∃ n, ∀ m, n ≤ m → (schedule m).isQuiet

def roundRobin : Nat → RollMove
  | 0 => .join
  | 1 => .acceptor ⟨.idle, none, .failed (.ofCause .wouldBlock)⟩
  | n + 2 =>
    if n % 2 = 0 then .owner (n / 2)
    else .worker (n / 2) ⟨0, .ok [], ⟨none, [], [], [], none⟩⟩ .idle

theorem exists_orderly (h : Handler) (cfg : Config) (k : RollCall) :
    ∃ schedule, Orderly h cfg k schedule := by
  -- each turn is the first part of infinitely many pairs, so it comes again and again
  have hturn (a n : Nat) : ∃ m, n ≤ m ∧ roundRobin (Nat.unpair m).1 = roundRobin a :=
    ⟨Nat.pair a n, Nat.right_le_pair a n, by rw [Nat.unpair_pair]⟩
  refine ⟨fun m => roundRobin (Nat.unpair m).1, ?_, ?_, ?_, ?_⟩
  · intro t ht n
    rcases Nat.lt_or_eq_of_le ht with hlt | rfl
    · obtain ⟨m, hm, he⟩ := hturn (2 * t + 1 + 2) n
      refine ⟨m, hm, ?_⟩
      have hodd : (2 * t + 1) % 2 ≠ 0 := by omega
      have hhalf : (2 * t + 1) / 2 = t := by omega
      rw [he, roundRobin, if_neg hodd, hhalf]
      exact if_pos hlt
    · obtain ⟨m, hm, he⟩ := hturn 1 n
      refine ⟨m, hm, ?_⟩
      rw [he]
      rfl
  · intro i n _
    obtain ⟨m, hm, he⟩ := hturn (2 * i + 2) n
    refine ⟨m, hm, he.trans ?_⟩
    have heven : (2 * i) % 2 = 0 := by omega
    have hhalf : (2 * i) / 2 = i := by omega
    rw [roundRobin, if_pos heven, hhalf]
  · intro n
    exact hturn 0 n
  · refine ⟨0, fun m _ => ?_⟩
    generalize (Nat.unpair m).1 = a
    rcases a with _ | _ | a
    · trivial
    · exact AcceptorStage.noConfusion
    · rw [roundRobin]
      split <;> trivial

section

variable {schedule : Nat → RollMove}

theorem Kept.thread_le (hk : k.Kept cfg) (hc : k.Asks cfg (.thread t)) : t ≤ cfg.workerCount := by
  obtain ⟨e, hended | ⟨-, hout⟩⟩ := hc
  · exact hk.within t _ hended
  · rw [Alarm.IsOut] at hout
    split at hout
    · rename_i ht
      exact ht.le
    · obtain ⟨w, hseat⟩ := hout
      obtain ⟨s, hi, -⟩ := Option.map_eq_some_iff.mp hseat
      exact hk.size ▸ (List.getElem?_eq_some_iff.mp hi).1.le

theorem Orderly.exists_isBy (ho : Orderly h cfg k schedule) {n : Nat}
    (hk : (k.after h cfg schedule n).Kept cfg)
    (hc : (k.after h cfg schedule n).alarm.calls c.number ≠ .raising) :
    ∃ m, n ≤ m ∧ (schedule m).isBy cfg c := by
  cases c with
  | owner i => exact ho.owner i n hc
  | thread t => exact ho.thread t (hk.thread_le (hk.asked _ hc)) n
  | visitor t => exact ho.join n

theorem Orderly.descent_call (ho : Orderly h cfg k schedule) (c : Caller) :
    Descent (k.after h cfg schedule) (fun n => (schedule n).isBy cfg c)
      (fun k => k.Kept cfg ∧ (k.alarm.calls c.number).hasRaised = true)
      (fun k => k.alarm.calls c.number = .returned true)
      (fun k => (k.alarm.calls c.number).rank cfg.workerCount) 0 where
  turn := by
    rintro n - ⟨hk, hc⟩
    refine ho.exists_isBy hk fun he => ?_
    rw [he] at hc
    cases hc
  step := by
    rintro n - ⟨hk, hc⟩
    rw [after]
    generalize k.after h cfg schedule n = k at hk hc
    have hnext := hk.hasRaised_step hc h (schedule n)
    cases hstage : k.alarm.calls c.number with
    | raising =>
      rw [hstage] at hc
      cases hc
    | returned b =>
      rw [hstage] at hc
      cases b with
      | true => exact Or.inl (hk.calls_step_of_returned hstage h _)
      | false => cases hc
    | waking i =>
      refine Or.inr ⟨⟨hk.step h _, hnext⟩, ?_⟩
      have hnot (b : Bool) : k.alarm.calls c.number ≠ .returned b := fun he =>
        nomatch he.symm.trans hstage
      -- a turn of its own wakes one inbox more, and no other turn touches the call
      by_cases hm : (schedule n).isBy cfg c
      · have hcall := hk.step_eq_call h hm (fun he => nomatch he.symm.trans hstage) hnot
        have hlt := Alarm.rank_callMove_lt hnot
        rw [hk.size] at hlt
        rw [hcall, ← hstage]
        exact Or.inl hlt
      · rw [hk.calls_step_of_not_isBy h hm, ← hstage]
        exact Or.inr ⟨hm, rfl⟩

theorem Orderly.descent_thread (ho : Orderly h cfg k schedule) (ht : t ≤ cfg.workerCount) (i : Nat)
    {start : Nat} (hq : ∀ n, start ≤ n → (schedule n).isQuiet) :
    Descent (k.after h cfg schedule) (fun n => (schedule n).thread? cfg = some t)
      (fun k => k.Kept cfg ∧ k.alarm.calls i = .returned true)
      (fun k => ∃ how, k.threads t = .ended how) (fun k => k.rank cfg t) start where
  turn := fun n _ _ => ho.thread t ht n
  step := by
    rintro n hn ⟨hk, hi⟩
    rw [after]
    generalize k.after h cfg schedule n = k at hk hi
    have hnext := hk.calls_step_of_returned hi h (schedule n)
    cases hstage : k.threads t with
    | ended how => exact Or.inl ⟨how, hk.ended_step hstage h _⟩
    | running fault =>
      by_cases hm : (schedule n).thread? cfg = some t
      · rcases hk.rank_step_lt h hi (hq n hn) hm hstage with hended | hlt
        · exact Or.inl hended
        · exact Or.inr ⟨⟨hk.step h _, hnext⟩, Or.inl hlt⟩
      · exact Or.inr ⟨⟨hk.step h _, hnext⟩, Or.inr ⟨hm, hk.rank_step_of_ne h hm⟩⟩

def visitRank (cfg : Config) (k : RollCall) : Rank :=
  match k.joining with
  | .away => .of (cfg.workerCount + 3) 0 0
  | .visiting t _ => .of (cfg.workerCount + 2 - t)
      ((k.alarm.calls (Caller.visitor t).number).rank cfg.workerCount) 0
  | .returned _ => .of 0 0 0

theorem Kept.visitRank_join_lt (hk : k.Kept cfg)
    (hall : ∀ t ≤ cfg.workerCount, ∃ how, k.threads t = .ended how) :
    (∃ result, (k.joinMove cfg).joining = .returned result) ∨
      (k.joinMove cfg).visitRank cfg < k.visitRank cfg := by
  rw [RollCall.joinMove]
  split
  · rename_i hj
    refine Or.inr ?_
    rw [visitRank, visitRank, hj]
    exact Rank.of_lt_of_lt (by omega)
  · rename_i t first hj
    split
    · rename_i ht
      obtain ⟨how, hended⟩ := hall t ht
      -- at a thread that has panicked, the visitor first gets on with the call on its account
      have hcall (hnot : ∀ b, k.alarm.calls (Caller.visitor t).number ≠ .returned b) :
          (k.call (.visitor t)).visitRank cfg < k.visitRank cfg := by
        have hlt := Alarm.rank_callMove_lt hnot
        rw [hk.size] at hlt
        have hj' : (k.call (.visitor t)).joining = .visiting t first := hj
        rw [visitRank, visitRank, hj, hj']
        exact Rank.of_lt_of_eq_of_lt hlt
      rw [hended]
      dsimp only
      refine Or.inr ?_
      split
      · rename_i hraising
        exact hcall fun b hb => nomatch hraising.symm.trans hb
      · rename_i i hwaking
        exact hcall fun b hb => nomatch hwaking.symm.trans hb
      · rw [visitRank, visitRank, hj]
        exact Rank.of_lt_of_lt (by omega)
    · exact Or.inl ⟨_, rfl⟩
  · rename_i result hj
    exact Or.inl ⟨result, hj⟩

theorem Orderly.descent_join (ho : Orderly h cfg k schedule) :
    Descent (k.after h cfg schedule) (fun n => schedule n = .join)
      (fun k => k.Kept cfg ∧ ∀ t ≤ cfg.workerCount, ∃ how, k.threads t = .ended how)
      (fun k => ∃ result, k.joining = .returned result) (visitRank cfg) 0 where
  turn := fun n _ _ => ho.join n
  step := by
    rintro n - ⟨hk, hall⟩
    rw [after]
    generalize k.after h cfg schedule n = k at hk hall
    have hnext (t : Nat) (ht : t ≤ cfg.workerCount) :
        ∃ how, (k.step h cfg (schedule n)).threads t = .ended how := by
      obtain ⟨how, hended⟩ := hall t ht
      exact ⟨how, hk.ended_step hended h _⟩
    -- the rank goes by a call that only the visitor gets on with, so other turns leave it
    by_cases hm : schedule n = .join
    · rcases hk.visitRank_join_lt hall with hgoal | hlt
      · rw [hm]
        exact Or.inl hgoal
      · refine Or.inr ⟨⟨hk.step h _, hnext⟩, Or.inl ?_⟩
        rw [hm]
        exact hlt
    · refine Or.inr ⟨⟨hk.step h _, hnext⟩, Or.inr ⟨hm, ?_⟩⟩
      rw [visitRank, visitRank, hk.joining_step h hm]
      cases hj : k.joining with
      | away => rfl
      | returned result => rfl
      | visiting t first =>
        dsimp only
        rw [hk.calls_step_of_not_isBy h (c := .visitor t) hm]

theorem Kept.ended_after (hk : k.Kept cfg) {n m : Nat} (hnm : n ≤ m)
    (ht : (k.after h cfg schedule n).threads t = .ended how) :
    (k.after h cfg schedule m).threads t = .ended how := by
  induction m, hnm using Nat.le_induction with
  | base => exact ht
  | succ m _ ih => exact (hk.after h schedule _).ended_step ih h _

theorem Kept.calls_after_of_returned (hk : k.Kept cfg) {i n m : Nat} {b : Bool} (hnm : n ≤ m)
    (hi : (k.after h cfg schedule n).alarm.calls i = .returned b) :
    (k.after h cfg schedule m).alarm.calls i = .returned b := by
  induction m, hnm using Nat.le_induction with
  | base => exact hi
  | succ m _ ih => exact (hk.after h schedule _).calls_step_of_returned ih h _

theorem Orderly.exists_all_ended (ho : Orderly h cfg k schedule) (hk : k.Kept cfg)
    (hr : k.alarm.crew.raised = true) :
    ∃ n, ∀ t ≤ cfg.workerCount, ∃ how, (k.after h cfg schedule n).threads t = .ended how := by
  obtain ⟨c, hc⟩ := hk.raiser hr
  obtain ⟨told, -, hi⟩ := (ho.descent_call c).exists_goal (Nat.le_refl 0) ⟨hk, hc⟩
  obtain ⟨quiet, hq⟩ := ho.quiet
  let start := max told quiet
  have hstart : (k.after h cfg schedule start).alarm.calls c.number = .returned true :=
    hk.calls_after_of_returned (Nat.le_max_left told quiet) hi
  have hquiet (n : Nat) (hn : start ≤ n) : (schedule n).isQuiet :=
    hq n ((Nat.le_max_right told quiet).trans hn)
  have hone (t : Nat) (ht : t ≤ cfg.workerCount) :
      ∃ n how, (k.after h cfg schedule n).threads t = .ended how := by
    obtain ⟨n, -, hended⟩ := (ho.descent_thread ht c.number hquiet).exists_goal (Nat.le_refl start)
      ⟨hk.after h schedule start, hstart⟩
    exact ⟨n, hended⟩
  -- the threads below `w` have all ended at the latest of their times
  have hbelow (w : Nat) (hw : w ≤ cfg.workerCount + 1) :
      ∃ n, ∀ t < w, ∃ how, (k.after h cfg schedule n).threads t = .ended how := by
    induction w with
    | zero => exact ⟨0, fun t ht => absurd ht (Nat.not_lt_zero t)⟩
    | succ w ih =>
      obtain ⟨n, hn⟩ := ih (Nat.le_of_succ_le hw)
      obtain ⟨m, how, hm⟩ := hone w (Nat.le_of_succ_le_succ hw)
      refine ⟨max n m, fun t ht => ?_⟩
      rcases Nat.lt_succ_iff_lt_or_eq.mp ht with hlt | rfl
      · obtain ⟨how', hended⟩ := hn t hlt
        exact ⟨how', hk.ended_after (Nat.le_max_left n m) hended⟩
      · exact ⟨how, hk.ended_after (Nat.le_max_right n m) hm⟩
  obtain ⟨n, hn⟩ := hbelow (cfg.workerCount + 1) (Nat.le_refl _)
  exact ⟨n, fun t ht => hn t (Nat.lt_succ_of_le ht)⟩

theorem Orderly.exists_returned (ho : Orderly h cfg k schedule) (hk : k.Kept cfg)
    (hr : k.alarm.crew.raised = true) :
    ∃ n result, (k.after h cfg schedule n).joining = .returned result := by
  obtain ⟨n, hall⟩ := ho.exists_all_ended hk hr
  obtain ⟨m, -, hm⟩ := ho.descent_join.exists_goal (Nat.zero_le n) ⟨hk.after h schedule n, hall⟩
  exact ⟨m, hm⟩

end

def Reports (cfg : Config) (k : RollCall) (result : Except ServerError Unit) : Prop :=
  ∃ ends : List ThreadEnd,
    (List.range (cfg.workerCount + 1)).map k.threads = ends.map .ended ∧
      result = joinThreads ((threadNames cfg.workerCount).zip ends)

theorem Kept.reports (hk : k.Kept cfg) {result : Except ServerError Unit}
    (hr : k.joining = .returned result) : k.Reports cfg result := by
  have hended (t : Nat) (ht : t < cfg.workerCount + 1) :
      k.threads t = .ended (k.threads t).howEnded := by
    obtain ⟨how, ht', -⟩ := hk.passed t (Nat.le_of_lt_succ ht) (by rw [hr]; rfl)
    rw [ht', ThreadStage.howEnded]
  refine ⟨(List.range (cfg.workerCount + 1)).map fun t => (k.threads t).howEnded, ?_, ?_⟩
  · rw [List.map_map]
    exact List.map_congr_left fun t ht => hended t (List.mem_range.mp ht)
  · rw [hk.returned result hr, threadNames_eq, List.zip_map', joinThreads, List.findSome?_map]
    rfl

/-- How a server deals with the ends of its threads.  One that has failed has not ended before
its own request to stop was through.  The flag is up as soon as one has ended otherwise than by a
panic, or one has been passed that has panicked, and comes up on no other account than these and
the owner's.  From then on no thread sleeps on, all of them end, and whoever waits for them is told
the first error in their order. -/
structure Answers (h : Handler) (cfg : Config) (k : RollCall) : Prop where
  asks : ∀ t how, k.threads t = .ended how → how.raisesFlag = true →
    ∃ b, k.alarm.calls (Caller.thread t).number = .returned b
  raised : ∀ t how, k.threads t = .ended how →
    how ≠ .panicked ∨ k.joining.hasPassed t = true → k.alarm.crew.raised = true
  reached : ∀ t first, k.joining = .visiting t first → k.threads t = .ended .panicked →
    (k.step h cfg .join).alarm.crew.raised = true
  asked : k.alarm.crew.raised = true →
    ∃ c : Caller, (k.alarm.calls c.number).hasRaised = true ∧ k.Asks cfg c
  told : ∀ n, k.alarm.calls n = .returned true → k.alarm.Heeded h cfg n
  stays : ∀ m t how, k.threads t = .ended how → (k.step h cfg m).threads t = .ended how
  reports : ∀ result, k.joining = .returned result → k.Reports cfg result
  returns : k.alarm.crew.raised = true → ∀ schedule, Orderly h cfg k schedule →
    ∃ n result, (k.after h cfg schedule n).joining = .returned result ∧
      (k.after h cfg schedule n).Reports cfg result

theorem Kept.raised_of_ended (hk : k.Kept cfg) (ht : k.threads t = .ended how)
    (hp : how ≠ .panicked ∨ k.joining.hasPassed t = true) : k.alarm.crew.raised = true := by
  have hbegun (n : Nat) (b : Bool) (hn : k.alarm.calls n = .returned b) :
      k.alarm.crew.raised = true :=
    hk.alarm.called.begun n fun he => nomatch he.symm.trans hn
  cases how with
  | finished => exact hk.finished t ht
  | failed e =>
    obtain ⟨b, hb⟩ := hk.failed t e ht
    exact hbegun _ b hb
  | panicked =>
    rcases hp with hne | hpassed
    · exact absurd rfl hne
    · obtain ⟨how', ht', hcall⟩ := hk.passed t (hk.within t _ ht) hpassed
      obtain ⟨b, hb⟩ := hcall (ThreadStage.ended.inj (ht'.symm.trans ht))
      exact hbegun _ b hb

theorem Kept.raised_join (hk : k.Kept cfg) {first : Option ServerError}
    (hj : k.joining = .visiting t first) (ht : k.threads t = .ended .panicked) :
    (k.joinMove cfg).alarm.crew.raised = true := by
  have hcall (hn : ∀ b, k.alarm.calls (Caller.visitor t).number ≠ .returned b) :
      (k.call (.visitor t)).alarm.crew.raised = true := by
    refine (k.alarm.raised_callMove_iff _).mpr ?_
    by_cases he : k.alarm.calls (Caller.visitor t).number = .raising
    · exact Or.inr he
    · exact Or.inl (hk.alarm.called.begun _ he)
  rw [RollCall.joinMove, hj]
  dsimp only
  rw [if_pos (hk.within t _ ht), ht]
  dsimp only
  split
  · rename_i hraising
    exact hcall fun b hb => nomatch hraising.symm.trans hb
  · rename_i i hwaking
    exact hcall fun b hb => nomatch hwaking.symm.trans hb
  · rename_i hraising _
    exact hk.alarm.called.begun _ fun he => hraising rfl he

theorem Kept.answers (hk : k.Kept cfg) (h : Handler) : k.Answers h cfg where
  asks := by
    intro t how ht hraises
    cases how with
    | failed e => exact hk.failed t e ht
    | finished | panicked => cases hraises
  raised := fun _ _ ht hp => hk.raised_of_ended ht hp
  reached := fun _ _ hj ht => hk.raised_join hj ht
  asked := by
    intro hr
    obtain ⟨c, hc⟩ := hk.raiser hr
    refine ⟨c, hc, hk.asked c fun he => ?_⟩
    rw [he] at hc
    cases hc
  told := fun _ hn => hk.alarm.heeded h hn
  stays := fun m _ _ ht => hk.ended_step ht h m
  reports := fun _ hr => hk.reports hr
  returns := by
    intro hr schedule ho
    obtain ⟨n, result, hn⟩ := ho.exists_returned hk hr
    exact ⟨n, result, hn, (hk.after h schedule n).reports hn⟩

/-- However the threads of a server are interleaved, and whichever of them fails or panics. -/
theorem run_answers (h : Handler) (cfg : Config) (credentials : Credentials) (wakeups : Nat → Fd)
    (listenerFd wakeupFd : Fd) (moves : List RollMove) :
    ((start cfg credentials wakeups listenerFd wakeupFd).run h cfg moves).Answers h cfg :=
  ((kept_start cfg credentials wakeups listenerFd wakeupFd).run h moves).answers h

/-- A panic by itself is heard by nobody.  Of two workers the second panics on what its client
has sent; the flag stays down, and whoever waits for the threads waits for the first. -/
theorem not_forall_raised :
    ¬ ∀ (h : Handler) (cfg : Config) (credentials : Credentials) (wakeups : Nat → Fd)
        (listenerFd wakeupFd : Fd) (moves : List RollMove) (t : Nat) (how : ThreadEnd),
        ((start cfg credentials wakeups listenerFd wakeupFd).run h cfg moves).threads t =
            .ended how →
          ((start cfg credentials wakeups listenerFd wakeupFd).run h cfg moves).alarm.crew.raised =
            true := by
  intro hall
  let work (i times : Nat) (wait : WaitEnd) : List RollMove :=
    List.replicate times (.worker i ⟨0, .ok [], ⟨none, [], [], [], none⟩⟩ wait)
  let door (times : Nat) (accept : AcceptResult) : List RollMove :=
    List.replicate times (.acceptor ⟨.told (fun _ => 1) 16, none, accept⟩)
  let moves := work 0 2 .idle ++ work 1 2 .idle ++ door 1 (.failed (.ofCause .wouldBlock)) ++
    .outside (.arrive 3 1) :: door 8 (.accepted ⟨8, "10.0.0.1:4000"⟩) ++
    door 6 (.accepted ⟨9, "10.0.0.1:4001"⟩) ++ work 1 3 (.told (fun _ => 1) 1024) ++
    work 1 5 .idle ++ .elsewhere 1 (.arrive 9 1) :: work 1 1 (.told (fun _ => 1) 1024) ++
    .panic 1 :: List.replicate 3 .join
  have hup := hall ⟨fun _ => .notFound, none⟩ { Config.standard 2 with idleTimeout := none }
    (.empty Credentials.spread) id 3 4 moves 1 .panicked (by rfl)
  exact absurd hup (by decide +kernel)

end RollCall
end EventHttp
