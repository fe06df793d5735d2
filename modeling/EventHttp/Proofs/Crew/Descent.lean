import EventHttp.Proofs.Crew.Ending
import Mathlib.Data.Prod.Lex
import Mathlib.Order.WellFounded

/-! Once the flag is raised and the threads have been told, each of them is on its way to its end.
Every move of its own brings a thread nearer to it, whatever the system answers, and no move of
another takes it back; only the acceptor has to be left alone by clients. -/

namespace EventHttp

/-- How far a thread is from its end: by its stage, then by the events that it has still to serve,
then by what it does for one of them. -/
abbrev Rank := Nat ×ₗ Nat ×ₗ Nat

namespace Rank

def of (a b c : Nat) : Rank := toLex (a, toLex (b, c))

variable {a a' b b' c c' : Nat}

theorem of_lt_of_lt (h : a < a') : of a b c < of a' b' c' :=
  Prod.Lex.toLex_lt_toLex.mpr (Or.inl h)

theorem of_lt_of_eq_of_lt (h : b < b') : of a b c < of a b' c' :=
  Prod.Lex.toLex_lt_toLex.mpr (Or.inr ⟨rfl, Prod.Lex.toLex_lt_toLex.mpr (Or.inl h)⟩)

theorem of_lt_last (h : c < c') : of a b c < of a b c' :=
  Prod.Lex.toLex_lt_toLex.mpr
    (Or.inr ⟨rfl, Prod.Lex.toLex_lt_toLex.mpr (Or.inr ⟨rfl, h⟩)⟩)

end Rank

def StopStage.rank (inboxes : Nat) : StopStage → Nat
  | raising => inboxes + 2
  | waking i => inboxes - i + 1
  | returned _ => 0

theorem Alarm.rank_callMove_lt {k : Alarm} {n : Nat} (hn : ∀ b, k.calls n ≠ .returned b) :
    ((k.callMove n).calls n).rank k.crew.stations.length <
      (k.calls n).rank k.crew.stations.length := by
  unfold callMove
  split
  · rename_i hcall
    rw [hcall]
    split
    · dsimp only
      rw [Function.update_self]
      exact Nat.succ_pos _
    · dsimp only
      rw [Function.update_self]
      exact Nat.lt_succ_self _
  · rename_i i hcall
    rw [hcall]
    split
    · dsimp only
      rw [Function.update_self, StopStage.rank, StopStage.rank]
      omega
    · dsimp only
      rw [Function.update_self]
      exact Nat.succ_pos _
  · rename_i b hcall
    exact absurd hcall (hn b)

def WorkerStage.rank (connections asking : Nat) : WorkerStage → Rank
  | expiring _ => .of 8 connections 0
  | waiting => .of 7 0 0
  | taking events => .of 6 (3 * events.length + 2) 0
  | adopting batch events => .of 6 (3 * events.length + 1) batch.length
  | serving events => .of 6 (3 * events.length) 0
  | looking => .of 5 0 0
  | closing fds => .of 4 fds.length 0
  | resetting => .of 3 0 0
  | emptying => .of 2 0 0
  | releasing batch => .of 1 batch.length 0
  | left => .of 0 asking 0

theorem Desk.rank_move_lt {h : Handler} {cfg : Config} {r : WorkerReply} {d : Desk}
    (ho : d.station.InOrder cfg.idleTimeout) (hl : d.stage ≠ .left) (asking : Nat) :
    (d.move h cfg true r).stage.rank (d.move h cfg true r).place.worker.connections.size asking <
      d.stage.rank d.place.worker.connections.size asking := by
  obtain ⟨stage, p⟩ := d
  have hs : p.worker.InStep cfg.idleTimeout := ho.inStep
  cases stage with
  | looking => exact Rank.of_lt_of_lt (Nat.lt_succ_self 4)
  | expiring now =>
    rw [move]
    split
    · rename_i e he
      have hk := Workplace.mem_keys_of_dueRoot? hs he
      have hsize := Table.size_erase_add_one hs.nodup hk
      refine Rank.of_lt_of_eq_of_lt ?_
      dsimp only
      rw [Workplace.connections_teardown]
      exact Nat.lt_of_succ_le hsize.le
    · exact Rank.of_lt_of_lt (Nat.lt_succ_self 7)
  | waiting =>
    rw [move]
    split
    · exact Rank.of_lt_of_lt (Nat.lt_succ_self 6)
    · exact Rank.of_lt_of_lt (by decide)
  | serving events =>
    cases events with
    | nil => exact Rank.of_lt_of_lt (Nat.lt_succ_self 5)
    | cons e events =>
      -- an event counts three times, since one for the inbox leads to taking and adopting
      have hfewer : 3 * events.length + 2 < 3 * (e :: events).length := by
        rw [List.length_cons]
        omega
      rw [move]
      split
      · split
        · exact Rank.of_lt_of_eq_of_lt (Nat.lt_of_le_of_lt (Nat.le_add_right _ 2) hfewer)
        · exact Rank.of_lt_of_eq_of_lt hfewer
      · exact Rank.of_lt_of_eq_of_lt (Nat.lt_of_le_of_lt (Nat.le_add_right _ 2) hfewer)
  | taking events => exact Rank.of_lt_of_eq_of_lt (Nat.lt_succ_self _)
  | adopting batch events =>
    cases batch with
    | nil => exact Rank.of_lt_of_eq_of_lt (Nat.lt_succ_self _)
    | cons s batch => exact Rank.of_lt_last (Nat.lt_succ_self _)
  | closing fds =>
    cases fds with
    | nil => exact Rank.of_lt_of_lt (Nat.lt_succ_self 3)
    | cons fd fds => exact Rank.of_lt_of_eq_of_lt (Nat.lt_succ_self _)
  | resetting =>
    rw [move]
    split
    · exact Rank.of_lt_of_lt (Nat.succ_pos 2)
    · exact Rank.of_lt_of_lt (Nat.lt_succ_self 2)
  | emptying => exact Rank.of_lt_of_lt (Nat.lt_succ_self 1)
  | releasing batch =>
    cases batch with
    | nil => exact Rank.of_lt_of_lt Nat.one_pos
    | cons s batch => exact Rank.of_lt_of_eq_of_lt (Nat.lt_succ_self _)
  | left => exact absurd rfl hl

def AcceptorStage.rank : AcceptorStage → Nat
  | looking | left => 0
  | accepting => 1
  | waiting | refusing _ | waking _ => 2
  | handing _ _ => 3
  | opening _ _ => 4
  | admitting _ => 5
  | checking _ => 6

theorem AcceptorStage.rank_next_le (cfg : Config) : (next cfg).rank ≤ 1 := by
  rw [next]
  split
  · exact Nat.le_refl 1
  · exact Nat.zero_le 1

def DoorStage.rank (burst : AcceptorStage) (asking : Nat) : DoorStage → Rank
  | waiting => .of 3 0 0
  | accepting events => .of 2 (2 * events.length + 1) burst.rank
  | serving events => .of 2 (2 * events.length) 0
  | looking => .of 1 0 0
  | left => .of 0 asking 0

def AcceptResult.isQuiet : AcceptResult → Prop
  | .accepted _ => False
  | .failed e => AcceptorStage.afterFault e ≠ .accepting

theorem AcceptorStage.afterFault_of_ne (e : IoError) (he : afterFault e ≠ accepting) :
    afterFault e = looking ∨ afterFault e = left := by
  unfold afterFault at he ⊢
  split <;> simp_all

theorem Crew.rank_acceptorMove_lt (cfg : Config) {c : Crew} {accept : AcceptResult}
    (hr : c.raised = true) (hq : accept.isQuiet) :
    let c' := c.acceptorMove cfg ⟨none, true, accept⟩
    c'.acceptor = .looking ∨ c'.acceptor = .left ∨ c'.acceptor.rank < c.acceptor.rank := by
  intro c'
  have hnext : (AcceptorStage.next cfg).rank < 2 :=
    Nat.lt_succ_of_le (AcceptorStage.rank_next_le cfg)
  obtain ⟨shared, raised, turn, acceptor, stations, ledger⟩ := c
  cases acceptor with
  | looking =>
    have hraised : raised = true := hr
    subst hraised
    exact Or.inr (Or.inl rfl)
  | accepting =>
    cases accept with
    -- only a client that comes could take the acceptor back
    | accepted s => exact hq.elim
    | failed e =>
      rcases AcceptorStage.afterFault_of_ne e hq with hlooking | hleft
      · exact Or.inl hlooking
      · exact Or.inr (Or.inl hleft)
  | checking s =>
    refine Or.inr (Or.inr ?_)
    dsimp only [c', acceptorMove]
    split
    · exact Nat.lt_of_lt_of_le (Nat.lt_succ_self 2) (Nat.le_add_right 3 3)
    · exact Nat.lt_succ_self 5
  | refusing s => exact Or.inr (Or.inr hnext)
  | waking i => exact Or.inr (Or.inr hnext)
  | waiting | admitting | opening | handing => exact Or.inr (Or.inr (Nat.lt_succ_self _))
  | left => exact Or.inr (Or.inl rfl)

namespace Alarm

variable {h : Handler} {cfg : Config} {k : Alarm}

theorem rank_acceptorMove_lt {r : DoorReply} (hr : k.crew.raised = true) (hq : r.accept.isQuiet)
    (hwait : k.door.stage = .waiting →
      (k.door.poller.await k.door.wakeup k.door.wakeupFd r.wait).2 ≠ none)
    (hl : k.door.stage ≠ .left) (asking : Nat) :
    (k.acceptorMove cfg r).door.stage.rank (k.acceptorMove cfg r).crew.acceptor asking <
      k.door.stage.rank k.crew.acceptor asking := by
  cases hstage : k.door.stage with
  | looking =>
    rw [acceptorMove, hstage]
    dsimp only [Door.move]
    rw [hstage]
    dsimp only
    rw [if_pos hr]
    exact Rank.of_lt_of_lt Nat.one_pos
  | waiting =>
    have hne := hwait hstage
    rw [acceptorMove, hstage]
    dsimp only [Door.move]
    rw [hstage]
    dsimp only
    split
    · rename_i hnone
      exact absurd hnone hne
    · exact Rank.of_lt_of_lt (Nat.succ_pos 2)
    · exact Rank.of_lt_of_lt (Nat.lt_succ_self 2)
  | serving events =>
    rw [acceptorMove, hstage]
    dsimp only [Door.move]
    rw [hstage]
    cases events with
    | nil => exact Rank.of_lt_of_lt (Nat.lt_succ_self 1)
    | cons e events =>
      -- an event counts twice, since serving it may begin a burst with the others still to come
      have hfewer : 2 * events.length + 1 < 2 * (e :: events).length := by
        rw [List.length_cons]
        omega
      dsimp only
      split
      · split
        · exact Rank.of_lt_of_lt (Nat.succ_pos 1)
        · exact Rank.of_lt_of_eq_of_lt (Nat.lt_of_succ_lt hfewer)
      · split
        · exact Rank.of_lt_of_eq_of_lt hfewer
        · exact Rank.of_lt_of_eq_of_lt (Nat.lt_of_succ_lt hfewer)
  | accepting events =>
    have hburst := Crew.rank_acceptorMove_lt cfg hr hq
    rw [acceptorMove, hstage]
    dsimp only [Door.move] at hburst ⊢
    rw [hstage]
    dsimp only
    split
    · exact Rank.of_lt_of_eq_of_lt (Nat.lt_succ_self _)
    · exact Rank.of_lt_of_lt (Nat.succ_pos 1)
    · rename_i hlooking hleft
      rcases hburst with hl | hl | hlt
      · exact absurd hl hlooking
      · exact absurd hl hleft
      · exact Rank.of_lt_last hlt
  | left => exact absurd hstage hl

end Alarm

def RollMove.isQuiet : RollMove → Prop
  | acceptor r => r.accept.isQuiet
  | worker _ _ _ | panic _ | owner _ | join | elsewhere _ _ | outside _ => True

namespace RollCall

variable {h : Handler} {cfg : Config} {k k' : RollCall} {m : RollMove} {c : Caller} {t : Nat}
  {fault : Option ServerError} {how : ThreadEnd}

def asking (cfg : Config) (k : RollCall) (t : Nat) : Nat :=
  (k.alarm.calls (Caller.thread t).number).rank cfg.workerCount

def rank (cfg : Config) (k : RollCall) (t : Nat) : Rank :=
  if t = cfg.workerCount then k.alarm.door.stage.rank k.alarm.crew.acceptor (k.asking cfg t)
  else
    match k.alarm.crew.seat? t with
    | none => .of 0 0 0
    | some (stage, w) => stage.rank w.connections.size (k.asking cfg t)

theorem rank_of_isOut (hout : k.alarm.IsOut cfg t) : k.rank cfg t = .of 0 (k.asking cfg t) 0 := by
  rw [Alarm.IsOut] at hout
  rw [rank]
  split
  · rename_i ht
    rw [if_pos ht] at hout
    rw [hout]
    rfl
  · rename_i ht
    rw [if_neg ht] at hout
    obtain ⟨w, hw⟩ := hout
    rw [hw]
    rfl

theorem rank_congr
    (hcall : k'.alarm.calls (Caller.thread t).number = k.alarm.calls (Caller.thread t).number)
    (hdoor : t = cfg.workerCount → k'.alarm.door.stage = k.alarm.door.stage ∧
      k'.alarm.crew.acceptor = k.alarm.crew.acceptor)
    (hseat : t ≠ cfg.workerCount → k'.alarm.crew.seat? t = k.alarm.crew.seat? t) :
    k'.rank cfg t = k.rank cfg t := by
  have hasking : k'.asking cfg t = k.asking cfg t := by rw [asking, asking, hcall]
  rw [rank, rank, hasking]
  split
  · rename_i ht
    obtain ⟨hstage, hacceptor⟩ := hdoor ht
    rw [hstage, hacceptor]
  · rename_i ht
    rw [hseat ht]

theorem rank_call_of_ne (k : RollCall) (hc : c ≠ .thread t) :
    (k.call c).rank cfg t = k.rank cfg t := by
  have hne : (Caller.thread t).number ≠ c.number := fun he => hc (Caller.number_injective he).symm
  exact rank_congr (k.alarm.calls_callMove_of_ne hne) (fun _ => k.alarm.door_callMove c.number)
    fun _ => k.alarm.seat?_callMove c.number t

theorem rank_step_of_alarm (h : Handler) {m : AlarmMove} (hm : m.mover? cfg ≠ some t)
    (hno : ∀ n, m ≠ .call n) (ha : k'.alarm = k.alarm.step h cfg m) :
    k'.rank cfg t = k.rank cfg t := by
  obtain ⟨hcalls, -⟩ := k.alarm.calls_and_raised_step h cfg hno
  refine rank_congr ?_ (fun ht => ?_) fun ht => ?_
  · rw [ha, hcalls]
  · rw [ha]
    exact k.alarm.door_step h cfg fun r he => hm (by rw [he, ht]; rfl)
  · rw [ha]
    exact k.alarm.seat?_step h cfg fun r wait he => hm (by rw [he]; rfl)

theorem Kept.rank_step_of_ne (hk : k.Kept cfg) (h : Handler) (hm : m.thread? cfg ≠ some t) :
    (k.step h cfg m).rank cfg t = k.rank cfg t := by
  have hsteps := k.steps h m hk.size
  generalize k.step h cfg m = k' at hsteps
  cases hsteps with
  | stays | ends | join => rfl
  | act hmove hmover =>
    refine rank_step_of_alarm h (fun he => hm ?_) (AlarmMove.ne_call_of_mover? hmover) rfl
    rw [hmove, ← hmover, he]
  | call hby =>
    refine rank_call_of_ne k ?_
    rintro rfl
    exact hm hby
  | beside hmover hno =>
    refine rank_step_of_alarm h ?_ hno rfl
    rw [hmover]
    exact nofun

theorem Kept.rank_leave_lt (hk : k.Kept cfg) (hout : k.alarm.IsOut cfg t)
    (fault : Option ServerError) :
    (∃ how, (k.leave t fault).threads t = .ended how) ∨
      (k.leave t fault).rank cfg t < k.rank cfg t := by
  have hended (how : ThreadEnd) : (k.ends t how).threads t = .ended how := by
    rw [threads_ends, if_pos rfl]
  have hcall (hnot : ∀ b, k.alarm.calls (Caller.thread t).number ≠ .returned b) :
      (k.call (.thread t)).rank cfg t < k.rank cfg t := by
    have hlt := Alarm.rank_callMove_lt hnot
    rw [hk.size] at hlt
    rw [rank_of_isOut hout, rank_of_isOut ((k.alarm.isOut_callMove _).mpr hout)]
    exact Rank.of_lt_of_eq_of_lt hlt
  cases fault with
  | none => exact Or.inl ⟨.finished, hended _⟩
  | some e =>
    rw [RollCall.leave]
    split
    · exact Or.inl ⟨.failed e, hended _⟩
    · rename_i hraising
      exact Or.inr (hcall fun b hb => StopStage.noConfusion (hraising.symm.trans hb))
    · rename_i i hwaking
      exact Or.inr (hcall fun b hb => StopStage.noConfusion (hwaking.symm.trans hb))

theorem Kept.rank_step_lt (hk : k.Kept cfg) (h : Handler) {n : Nat}
    (hn : k.alarm.calls n = .returned true) (hq : m.isQuiet) (hm : m.thread? cfg = some t)
    (hrun : k.threads t = .running fault) :
    (∃ how, (k.step h cfg m).threads t = .ended how) ∨
      (k.step h cfg m).rank cfg t < k.rank cfg t := by
  have hraised : k.alarm.crew.raised = true :=
    hk.alarm.called.begun n fun he => nomatch he.symm.trans hn
  cases m with
  | worker i r wait =>
    rw [RollMove.thread?] at hm
    split at hm
    · rename_i hlt
      obtain rfl := Option.some.inj hm
      rw [RollCall.step]
      split
      · rename_i hnone
        have hle := List.getElem?_eq_none_iff.mp hnone
        rw [hk.size] at hle
        exact absurd hlt (Nat.not_lt_of_le hle)
      · rename_i s hi
        have hseat := Crew.seat?_of_getElem? hi
        have hne := Nat.ne_of_lt hlt
        rw [proceed, hrun]
        dsimp only
        split
        · rename_i hleft
          have hstage : s.stage = .left := of_decide_eq_true hleft
          exact hk.rank_leave_lt ((Alarm.isOut_worker_iff hlt hi).mpr hstage) fault
        · rename_i hin
          have hstage : s.stage ≠ .left := fun he => hin (decide_eq_true he)
          obtain ⟨hcalls, -⟩ := k.alarm.calls_and_raised_step h cfg (m := .worker i r wait)
            fun _ => AlarmMove.noConfusion
          have hasking (f : Option ServerError) :
              (k.act h cfg i (.worker i r wait) f).asking cfg i = k.asking cfg i := by
            rw [asking, RollCall.act, hcalls, asking]
          rcases Alarm.crew_workerMove hi h cfg r wait with ⟨hwaiting, hblocked, -⟩ | ⟨r', -, hcrew⟩
          · -- a worker that has been told has its counter up, so its wait does not block
            have hcount := hk.alarm.roused i s ⟨n, by rw [hn]; rfl⟩ hi (by rw [hwaiting]; rfl)
            exact absurd hblocked ((hk.alarm.attends i s hi).await_ne_none hcount wait)
          · have ho : (s.desk k.alarm.crew.shared).station.InOrder cfg.idleTimeout :=
              hk.alarm.seated.inOrder s (List.mem_of_getElem? hi)
            have hlt := Desk.rank_move_lt (h := h) (r := r') ho hstage (k.asking cfg i)
            have hseat' : (k.act h cfg i (.worker i r wait)
                (fault.or (s.stage.fault? i wait))).alarm.crew.seat? i = _ :=
              (congrArg (Crew.seat? · i) hcrew).trans (Crew.seat?_workerMove_self hi h cfg r')
            rw [hraised] at hseat'
            refine Or.inr ?_
            rw [rank, if_neg hne, rank, if_neg hne, hasking, hseat, hseat']
            exact hlt
    · cases hm
  | acceptor r =>
    obtain rfl := Option.some.inj hm
    rw [RollCall.step, proceed, hrun]
    dsimp only
    split
    · rename_i hleft
      have hstage : k.alarm.door.stage = .left := of_decide_eq_true hleft
      exact hk.rank_leave_lt ((Alarm.isOut_acceptor_iff cfg k.alarm).mpr hstage) fault
    · rename_i hin
      have hstage : k.alarm.door.stage ≠ .left := fun he => hin (decide_eq_true he)
      obtain ⟨hcalls, -⟩ := k.alarm.calls_and_raised_step h cfg (m := .acceptor r)
        fun _ => AlarmMove.noConfusion
      have hasking (f : Option ServerError) : (k.act h cfg cfg.workerCount (.acceptor r) f).asking cfg
          cfg.workerCount = k.asking cfg cfg.workerCount := by
        rw [asking, RollCall.act, hcalls, asking]
      have hwait (hw : k.alarm.door.stage = .waiting) :=
        hk.alarm.door.await_ne_none (hk.alarm.rung ⟨n, hn⟩ hw) r.wait
      refine Or.inr ?_
      rw [rank, if_pos rfl, rank, if_pos rfl, hasking]
      exact Alarm.rank_acceptorMove_lt hraised hq hwait hstage _
  | panic | owner | join | elsewhere | outside => cases hm

end RollCall
end EventHttp
