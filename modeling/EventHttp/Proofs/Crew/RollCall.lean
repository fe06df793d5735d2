import EventHttp.Proofs.Crew.Frame

/-! How the threads of a server end, and what waiting for all of them reports.  A thread that fails
asks the server to stop before it ends.  One that panics asks nobody; whoever waits for the threads
asks in its place, but comes to it only when all the threads before it have ended. -/

namespace EventHttp

def Config.workerCount (cfg : Config) : Nat :=
  max cfg.workers 1

def AlarmMove.mover? (cfg : Config) : AlarmMove → Option Nat
  | worker i _ _ => some i
  | acceptor _ => some cfg.workerCount
  | call _ | elsewhere _ _ | outside _ => none

theorem AlarmMove.ne_call_of_mover? {cfg : Config} {m : AlarmMove} {t : Nat}
    (hm : m.mover? cfg = some t) (n : Nat) : m ≠ .call n := by
  rintro rfl
  cases hm

def threadName (workers t : Nat) : String :=
  if t < workers then workerName t else acceptorName

theorem threadNames_eq (workers : Nat) :
    threadNames workers = (List.range (workers + 1)).map (threadName workers) := by
  have hworkers : (List.range workers).map workerName =
      (List.range workers).map (threadName workers) :=
    List.map_congr_left fun t ht => (if_pos (List.mem_range.mp ht)).symm
  have hacceptor : threadName workers workers = acceptorName := if_neg (Nat.lt_irrefl workers)
  rw [threadNames, List.range_succ, List.map_append, hworkers, List.map_singleton, hacceptor]

def WorkerStage.isLeaving : WorkerStage → Bool
  | closing _ | resetting | emptying | releasing _ | left => true
  | looking | expiring _ | waiting | serving _ | taking _ | adopting _ _ => false

def WorkerStage.fault? (i : Nat) (wait : WaitEnd) : WorkerStage → Option ServerError
  | waiting =>
    match wait with
    | .failed e => some (.worker i e)
    | .idle | .told _ _ => none
  | _ => none

def AcceptorStage.fault? (accept : AcceptResult) : AcceptorStage → Option ServerError
  | accepting =>
    match accept with
    | .failed e => if afterFault e = left then some (.accept e) else none
    | .accepted _ => none
  | _ => none

def Door.fault? (d : Door) (burst : AcceptorStage) (r : DoorReply) : Option ServerError :=
  match d.stage with
  | .waiting =>
    match r.wait with
    | .failed e => some (.poller e)
    | .idle | .told _ _ => none
  | .serving (e :: _) => if e.fd = d.wakeupFd then r.drain.map .wakeup else none
  | .accepting _ => burst.fault? r.accept
  | .looking | .serving [] | .left => none

theorem Poller.eq_failed_of_await {p : Poller} {w : Wakeup} {fd : Fd} {wait : WaitEnd} {e : IoError}
    (ht : (p.await w fd wait).2 = some (.error e)) : wait = .failed e := by
  cases wait with
  | failed e' =>
    cases ht
    rfl
  | idle => cases ht
  | told others capacity =>
    dsimp only [await] at ht
    split at ht <;> cases ht

theorem Desk.isLeaving_move {h : Handler} {cfg : Config} {raised : Bool} {r : WorkerReply} {d : Desk}
    (hl : (d.move h cfg raised r).stage.isLeaving = true) :
    d.stage.isLeaving = true ∨ raised = true ∨ d.stage = .waiting ∧ ∃ e, r.wait = .error e := by
  obtain ⟨stage, p⟩ := d
  cases stage with
  | looking =>
    cases raised with
    | true => exact Or.inr (Or.inl rfl)
    | false => cases hl
  | expiring now =>
    rw [move] at hl
    split at hl <;> cases hl
  | waiting =>
    rw [move] at hl
    split at hl
    · cases hl
    · rename_i e he
      exact Or.inr (Or.inr ⟨rfl, e, he⟩)
  | serving events =>
    cases events with
    | nil => cases hl
    | cons e events =>
      rw [move] at hl
      split at hl
      · split at hl <;> cases hl
      · cases hl
  | taking events => cases hl
  | adopting batch events => cases batch <;> cases hl
  | closing | resetting | emptying | releasing | left => exact Or.inl rfl

theorem Crew.left_acceptorMove {cfg : Config} {c : Crew} {r : AcceptorReply}
    (hl : (c.acceptorMove cfg r).acceptor = .left) :
    c.acceptor = .left ∨ c.raised = true ∨ r.fault.isSome = true ∨
      c.acceptor = .accepting ∧ ∃ e, r.accept = .failed e ∧ AcceptorStage.afterFault e = .left := by
  obtain ⟨shared, raised, turn, acceptor, stations, ledger⟩ := c
  have hnext (stage : AcceptorStage) (hs : stage = .next cfg) : stage ≠ .left := by
    rw [hs, AcceptorStage.next]
    split <;> exact AcceptorStage.noConfusion
  cases acceptor with
  | looking =>
    cases raised with
    | true => exact Or.inr (Or.inl rfl)
    | false => cases hl
  | waiting =>
    dsimp only [acceptorMove] at hl
    split at hl
    · rename_i e he
      rw [he]
      exact Or.inr (Or.inr (Or.inl rfl))
    · dsimp only at hl
      split at hl <;> cases hl
  | accepting =>
    dsimp only [acceptorMove] at hl
    split at hl
    · cases hl
    · rename_i e he
      exact Or.inr (Or.inr (Or.inr ⟨rfl, e, he, hl⟩))
  | checking s =>
    dsimp only [acceptorMove] at hl
    split at hl <;> cases hl
  | refusing s => exact absurd hl (hnext _ rfl)
  | admitting s => cases hl
  | opening i s => cases hl
  | handing i s => cases hl
  | waking i => exact absurd hl (hnext _ rfl)
  | left => exact Or.inl rfl

namespace Alarm

variable {h : Handler} {cfg : Config} {k : Alarm}

theorem isLeaving_workerMove {i : Nat} {s : Station} {stage : WorkerStage} {w : Worker}
    {r : WorkerReply} {wait : WaitEnd} (hi : k.crew.stations[i]? = some s)
    (hi' : (k.workerMove h cfg i r wait).crew.seat? i = some (stage, w))
    (hl : stage.isLeaving = true) :
    s.stage.isLeaving = true ∨ k.crew.raised = true ∨ (s.stage.fault? i wait).isSome = true := by
  rcases crew_workerMove hi h cfg r wait with ⟨hs, -, hcrew⟩ | ⟨r', htold, hcrew⟩
  · rw [hcrew, Crew.seat?_of_getElem? hi, hs] at hi'
    cases hi'
    cases hl
  · rw [hcrew, Crew.seat?_workerMove_self hi] at hi'
    obtain ⟨rfl, -⟩ := Prod.mk.inj (Option.some.inj hi')
    rcases Desk.isLeaving_move hl with hleaving | hraised | ⟨hs, e, he⟩
    · exact Or.inl hleaving
    · exact Or.inr (Or.inl hraised)
    · have hwaiting : s.stage = .waiting := hs
      have hfailed : wait = .failed e := Poller.eq_failed_of_await (he ▸ htold hwaiting)
      rw [hwaiting, hfailed]
      exact Or.inr (Or.inr rfl)

theorem left_acceptorMove {r : DoorReply}
    (hb : k.door.stage.isAccepting = true → k.crew.acceptor ≠ .left)
    (hl : (k.acceptorMove cfg r).door.stage = .left) :
    k.door.stage = .left ∨ k.crew.raised = true ∨
      (k.door.fault? k.crew.acceptor r).isSome = true := by
  cases hstage : k.door.stage with
  | looking =>
    rw [acceptorMove, hstage] at hl
    dsimp only [Door.move] at hl
    rw [hstage] at hl
    dsimp only at hl
    split at hl
    · rename_i hraised
      exact Or.inr (Or.inl hraised)
    · cases hl
  | waiting =>
    rw [acceptorMove, hstage] at hl
    dsimp only [Door.move] at hl
    rw [hstage] at hl
    dsimp only at hl
    split at hl
    · cases hl
    · rename_i e he
      refine Or.inr (Or.inr ?_)
      rw [Door.fault?, hstage, Poller.eq_failed_of_await he]
      rfl
    · cases hl
  | serving events =>
    rw [acceptorMove, hstage] at hl
    dsimp only [Door.move] at hl
    rw [hstage] at hl
    cases events with
    | nil => cases hl
    | cons e events =>
      dsimp only at hl
      split at hl
      · rename_i he
        split at hl
        · rename_i fault hdrain
          refine Or.inr (Or.inr ?_)
          rw [Door.fault?, hstage]
          dsimp only
          rw [if_pos he, hdrain]
          rfl
        · cases hl
      · split at hl <;> cases hl
  | accepting events =>
    rw [hstage] at hb
    have hne := hb rfl
    rw [acceptorMove, hstage] at hl
    dsimp only [Door.move] at hl
    rw [hstage] at hl
    dsimp only at hl
    split at hl
    · cases hl
    · rename_i hburst
      -- what ends the burst in this move is what the acceptor leaves with
      rcases Crew.left_acceptorMove hburst with hleft | hraised | hfault | ⟨hburst, e, he, hafter⟩
      · exact absurd hleft hne
      · exact Or.inr (Or.inl hraised)
      · cases hfault
      · have haccept : r.accept = .failed e := he
        refine Or.inr (Or.inr ?_)
        rw [Door.fault?, hstage]
        dsimp only
        rw [hburst, haccept, AcceptorStage.fault?, if_pos hafter]
        rfl
    · cases hl
  | left => exact Or.inl rfl

theorem accepting_acceptorMove {r : DoorReply}
    (ha : (k.acceptorMove cfg r).door.stage.isAccepting = true) :
    (k.acceptorMove cfg r).crew.acceptor ≠ .left := by
  rw [acceptorMove] at ha ⊢
  split at ha
  · rename_i events hstage
    intro hleft
    dsimp only [Door.move] at ha
    rw [hstage] at ha
    dsimp only at ha
    rw [show (k.crew.acceptorMove cfg ⟨none, true, r.accept⟩).acceptor = .left from hleft] at ha
    cases ha
  · dsimp only at ha ⊢
    rw [if_pos ha]
    exact AcceptorStage.noConfusion

def IsOut (cfg : Config) (k : Alarm) (t : Nat) : Prop :=
  if t = cfg.workerCount then k.door.stage = .left else ∃ w, k.crew.seat? t = some (.left, w)

theorem isOut_acceptor_iff (cfg : Config) (k : Alarm) :
    k.IsOut cfg cfg.workerCount ↔ k.door.stage = .left :=
  iff_of_eq (if_pos rfl)

theorem isOut_worker_iff {i : Nat} {s : Station} (hlt : i < cfg.workerCount)
    (hi : k.crew.stations[i]? = some s) : k.IsOut cfg i ↔ s.stage = .left := by
  rw [IsOut, if_neg (Nat.ne_of_lt hlt), Crew.seat?_of_getElem? hi]
  constructor
  · rintro ⟨w, hw⟩
    exact (Prod.mk.inj (Option.some.inj hw)).1
  · intro hstage
    exact ⟨s.worker, by rw [hstage]⟩

theorem isOut_step {m : AlarmMove} {t : Nat} (h : Handler) (hm : m.mover? cfg ≠ some t) :
    (k.step h cfg m).IsOut cfg t ↔ k.IsOut cfg t := by
  unfold IsOut
  split
  · rename_i ht
    have hstage := (k.door_step h cfg (m := m) fun r he => hm (he ▸ congrArg some ht.symm)).1
    rw [hstage]
  · have hseat := k.seat?_step h cfg (m := m) (i := t) fun r wait he => hm (he ▸ rfl)
    rw [hseat]

theorem isOut_callMove (k : Alarm) (n : Nat) {t : Nat} :
    (k.callMove n).IsOut cfg t ↔ k.IsOut cfg t := by
  unfold IsOut
  rw [(k.door_callMove n).1, seat?_callMove]

end Alarm

inductive Caller where
  | owner (n : Nat)
  | thread (t : Nat)
  | visitor (t : Nat)

namespace Caller

def number : Caller → Nat
  | owner n => 3 * n
  | thread t => 3 * t + 1
  | visitor t => 3 * t + 2

theorem number_injective : Function.Injective number := by
  intro c c' h
  cases c <;> cases c' <;> simp only [number] at h <;> first | omega | (congr 1; omega)

end Caller

inductive ThreadStage where
  | running (fault : Option ServerError)
  | ended (how : ThreadEnd)

def ThreadStage.howEnded : ThreadStage → ThreadEnd
  | running _ => .finished
  | ended how => how

inductive JoinStage where
  | away
  | visiting (t : Nat) (first : Option ServerError)
  | returned (result : Except ServerError Unit)

def JoinStage.hasPassed (t : Nat) : JoinStage → Bool
  | away => false
  | visiting t' _ => t < t'
  | returned _ => true

/-- A server with its threads, the workers in order and behind them the acceptor, and with how far
waiting for them has come. -/
structure RollCall where
  alarm : Alarm
  threads : Nat → ThreadStage
  joining : JoinStage

inductive RollMove where
  | worker (i : Nat) (reply : WorkerReply) (wait : WaitEnd)
  | acceptor (reply : DoorReply)
  | panic (i : Nat)
  | owner (n : Nat)
  | join
  | elsewhere (i : Nat) (use : Poller.Use)
  | outside (use : Poller.Use)

namespace RollMove

def thread? (cfg : Config) : RollMove → Option Nat
  | worker i _ _ => if i < cfg.workerCount then some i else none
  | acceptor _ => some cfg.workerCount
  | panic _ | owner _ | join | elsewhere _ _ | outside _ => none

def isBy (cfg : Config) (m : RollMove) : Caller → Prop
  | .owner n => m = .owner n
  | .thread t => m.thread? cfg = some t
  | .visitor _ => m = .join

end RollMove

namespace RollCall

def start (cfg : Config) (credentials : Credentials) (wakeups : Nat → Fd)
    (listenerFd wakeupFd : Fd) : RollCall where
  alarm := .start cfg credentials wakeups listenerFd wakeupFd
  threads := fun _ => .running none
  joining := .away

def call (k : RollCall) (c : Caller) : RollCall :=
  { k with alarm := k.alarm.callMove c.number }

def ends (k : RollCall) (t : Nat) (how : ThreadEnd) : RollCall :=
  { k with threads := Function.update k.threads t (.ended how) }

/-- A thread that has come out of its loop ends, and if it has failed, not before its request to
stop is through. -/
def leave (k : RollCall) (t : Nat) : Option ServerError → RollCall
  | none => k.ends t .finished
  | some e =>
    match k.alarm.calls (Caller.thread t).number with
    | .returned _ => k.ends t (.failed e)
    | .raising | .waking _ => k.call (.thread t)

def act (h : Handler) (cfg : Config) (k : RollCall) (t : Nat) (m : AlarmMove)
    (fault : Option ServerError) : RollCall :=
  { k with
    alarm := k.alarm.step h cfg m
    threads := Function.update k.threads t (.running fault) }

def proceed (h : Handler) (cfg : Config) (k : RollCall) (t : Nat) (isOut : Bool) (m : AlarmMove)
    (fault? : Option ServerError) : RollCall :=
  match k.threads t with
  | .ended _ => k
  | .running fault =>
    if isOut then k.leave t fault else k.act h cfg t m (fault.or fault?)

def panicMove (k : RollCall) (i : Nat) : RollCall :=
  match k.alarm.crew.stations[i]?, k.threads i with
  | some s, .running _ =>
    match s.stage with
    | .serving (e :: _) => if e.fd = s.worker.wakeupFd then k else k.ends i .panicked
    | _ => k
  | _, _ => k

def joinMove (cfg : Config) (k : RollCall) : RollCall :=
  match k.joining with
  | .away => { k with joining := .visiting 0 none }
  | .visiting t first =>
    if t ≤ cfg.workerCount then
      match k.threads t with
      | .running _ => k
      | .ended how =>
        let next : RollCall :=
          { k with
            joining := .visiting (t + 1) (first.or (how.error? (threadName cfg.workerCount t))) }
        match how, k.alarm.calls (Caller.visitor t).number with
        | .panicked, .raising | .panicked, .waking _ => k.call (.visitor t)
        | _, _ => next
    else
      { k with
        joining := .returned (match first with
          | some e => .error e
          | none => .ok ()) }
  | .returned _ => k

def step (h : Handler) (cfg : Config) (k : RollCall) : RollMove → RollCall
  | .worker i reply wait =>
    match k.alarm.crew.stations[i]? with
    | none => k
    | some s =>
      k.proceed h cfg i (s.stage = .left) (.worker i reply wait) (s.stage.fault? i wait)
  | .acceptor reply =>
    k.proceed h cfg cfg.workerCount (k.alarm.door.stage = .left) (.acceptor reply)
      (k.alarm.door.fault? k.alarm.crew.acceptor reply)
  | .panic i => k.panicMove i
  | .owner n => k.call (.owner n)
  | .join => k.joinMove cfg
  | .elsewhere i use => { k with alarm := k.alarm.step h cfg (.elsewhere i use) }
  | .outside use => { k with alarm := k.alarm.step h cfg (.outside use) }

def run (h : Handler) (cfg : Config) (k : RollCall) (moves : List RollMove) : RollCall :=
  moves.foldl (step h cfg) k

theorem threads_act (h : Handler) (cfg : Config) (k : RollCall) (t : Nat) (m : AlarmMove)
    (fault : Option ServerError) (t' : Nat) :
    (k.act h cfg t m fault).threads t' = if t' = t then .running fault else k.threads t' :=
  Function.update_apply ..

theorem threads_ends (k : RollCall) (t : Nat) (how : ThreadEnd) (t' : Nat) :
    (k.ends t how).threads t' = if t' = t then .ended how else k.threads t' :=
  Function.update_apply ..

variable {h : Handler} {cfg : Config} {k : RollCall} {m : RollMove}

inductive Steps (h : Handler) (cfg : Config) (k : RollCall) (m : RollMove) : RollCall → Prop
  | stays : Steps h cfg k m k
  | act {t : Nat} {m' : AlarmMove} {fault fault' : Option ServerError}
    (hm : m.thread? cfg = some t) (hmover : m'.mover? cfg = some t)
    (hrun : k.threads t = .running fault) : Steps h cfg k m (k.act h cfg t m' fault')
  | ends {t : Nat} {fault : Option ServerError} {how : ThreadEnd}
    (hrun : k.threads t = .running fault) : Steps h cfg k m (k.ends t how)
  | call {c : Caller} (hm : m.isBy cfg c) : Steps h cfg k m (k.call c)
  | join {joining : JoinStage} (hm : m = .join) : Steps h cfg k m { k with joining }
  | beside {m' : AlarmMove} (hmover : m'.mover? cfg = none) (hno : ∀ n, m' ≠ .call n) :
    Steps h cfg k m { k with alarm := k.alarm.step h cfg m' }

theorem steps_proceed {t : Nat} (hm : m.thread? cfg = some t) {m' : AlarmMove}
    (hmover : m'.mover? cfg = some t) (isOut : Bool) (fault? : Option ServerError) :
    k.Steps h cfg m (k.proceed h cfg t isOut m' fault?) := by
  unfold proceed
  split
  · exact .stays
  · rename_i fault hrun
    split
    · cases fault with
      | none => exact .ends hrun
      | some e =>
        rw [leave]
        split
        · exact .ends hrun
        · exact .call (c := .thread t) hm
        · exact .call (c := .thread t) hm
    · exact .act hm hmover hrun

theorem steps (h : Handler) (k : RollCall) (m : RollMove)
    (hsize : k.alarm.crew.stations.length = cfg.workerCount) :
    k.Steps h cfg m (k.step h cfg m) := by
  cases m with
  | worker i r wait =>
    rw [step]
    split
    · exact .stays
    · rename_i s hi
      have hlt : i < cfg.workerCount := hsize ▸ (List.getElem?_eq_some_iff.mp hi).1
      have hm : (RollMove.worker i r wait).thread? cfg = some i := if_pos hlt
      exact steps_proceed hm rfl _ _
  | acceptor r => exact steps_proceed rfl rfl _ _
  | panic i =>
    rw [step]
    unfold panicMove
    split
    · rename_i s fault hi hrun
      split
      · split
        · exact .stays
        · exact .ends hrun
      · exact .stays
    · exact .stays
  | owner n => exact .call (c := .owner n) rfl
  | join =>
    rw [step]
    unfold joinMove
    split
    · exact .join rfl
    · rename_i t first hj
      split
      · split
        · exact .stays
        · dsimp only
          split
          · exact .call (c := .visitor t) rfl
          · exact .call (c := .visitor t) rfl
          · exact .join rfl
      · exact .join rfl
    · exact .stays
  | elsewhere i use => exact .beside rfl fun _ => AlarmMove.noConfusion
  | outside use => exact .beside rfl fun _ => AlarmMove.noConfusion

end RollCall
end EventHttp
