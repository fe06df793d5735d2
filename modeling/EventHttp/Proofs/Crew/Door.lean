import EventHttp.Proofs.Polling.Delivery
import EventHttp.Proofs.Crew.Moves

/-! Waiting with a counter, and the acceptor's loop around its wait.  A poller hears of the counter
when it goes up, and as it watches the counter by level, no wait blocks while it is up.  Once the
flag is raised, the acceptor does not go to wait any more. -/

namespace EventHttp

namespace Wakeup

variable {w : Wakeup} {fd : Fd} {p : Poller}

def tell (w w' : Wakeup) (fd : Fd) (p : Poller) : Poller :=
  if w.count < w'.count then p.arrive fd Interest.readable.bits else p

structure Heard (w : Wakeup) (fd : Fd) (p : Poller) : Prop where
  level : p.Level fd .readable
  queued : 0 < w.count → fd ∈ p.queue

theorem Heard.tell (hp : w.Heard fd p) (w' : Wakeup) : w'.Heard fd (w.tell w' fd p) := by
  unfold Wakeup.tell
  split
  · exact ⟨hp.level.arrive fd _, fun _ => hp.level.mem_arrive told_readable⟩
  · rename_i hle
    exact ⟨hp.level, fun hc => hp.queued (Nat.lt_of_lt_of_le hc (Nat.le_of_not_lt hle))⟩

theorem Heard.use (hp : w.Heard fd p) {use : Poller.Use} (hne : use.target ≠ fd) :
    w.Heard fd (use.apply p) := by
  obtain ⟨hlevel, hqueue⟩ := hp.level.use use hne
  exact ⟨hlevel, fun hc => hqueue (hp.queued hc)⟩

end Wakeup

inductive WaitEnd where
  | failed (e : IoError)
  | idle
  | told (others : Readiness) (capacity : Nat)

/-- A wait with a counter at `fd`.  It gives nothing for as long as it blocks. -/
def Poller.await (p : Poller) (w : Wakeup) (fd : Fd) :
    WaitEnd → Poller × Option (Except IoError (List Event))
  | .failed e => (p, some (.error e))
  | .idle => (p, some (.ok []))
  | .told others capacity =>
    let (p, events) := p.wait (w.readiness fd others) capacity
    (p, if events = [] then none else some (.ok events))

namespace Wakeup.Heard

variable {w : Wakeup} {fd : Fd} {p : Poller}

theorem await (hp : w.Heard fd p) (wait : WaitEnd) : w.Heard fd (p.await w fd wait).1 := by
  cases wait with
  | failed e => exact hp
  | idle => exact hp
  | told others capacity =>
    refine ⟨hp.level.wait _ capacity, fun hc => ?_⟩
    exact (hp.level.wait_of_ready (told_readiness hc fd others) (hp.queued hc) capacity).1

theorem await_ne_none (hp : w.Heard fd p) (hc : 0 < w.count) (wait : WaitEnd) :
    (p.await w fd wait).2 ≠ none := by
  cases wait with
  | failed e => exact Option.some_ne_none _
  | idle => exact Option.some_ne_none _
  | told others capacity =>
    have htold := (hp.level.wait_of_ready (told_readiness hc fd others) (hp.queued hc) capacity).2
    dsimp only [Poller.await]
    rw [if_neg htold]
    exact Option.some_ne_none _

end Wakeup.Heard

inductive DoorStage where
  | looking
  | waiting
  | serving (events : List Event)
  | accepting (events : List Event)
  | left
  deriving DecidableEq, Repr

def DoorStage.isAccepting : DoorStage → Bool
  | accepting _ => true
  | looking | waiting | serving _ | left => false

structure DoorReply where
  wait : WaitEnd
  drain : Option IoError
  accept : AcceptResult

structure Door where
  stage : DoorStage
  listenerFd : Fd
  wakeupFd : Fd
  wakeup : Wakeup
  poller : Poller

namespace Door

def start (cfg : Config) (listenerFd wakeupFd : Fd) : Door where
  stage := .looking
  listenerFd
  wakeupFd
  wakeup := .empty
  poller := { Poller.empty with
    watches := (Table.empty.put listenerFd cfg.listenInterest).put wakeupFd .readable }

def move (raised : Bool) (r : DoorReply) (burst : AcceptorStage) (d : Door) : Door :=
  match d.stage with
  | .looking => { d with stage := if raised then .left else .waiting }
  | .waiting =>
    let (poller, told) := d.poller.await d.wakeup d.wakeupFd r.wait
    let stage := match told with
      | none => .waiting
      | some (.error _) => .left
      | some (.ok events) => .serving events
    { d with stage, poller }
  | .serving [] => { d with stage := .looking }
  | .serving (e :: events) =>
    if e.fd = d.wakeupFd then
      match r.drain with
      | some _ => { d with stage := .left }
      | none => { d with stage := .serving events, wakeup := d.wakeup.drain.2 }
    else if e.fd = d.listenerFd then { d with stage := .accepting events }
    else { d with stage := .serving events }
  | .accepting events =>
    let stage := match burst with
      | .looking => .serving events
      | .left => .left
      | _ => .accepting events
    { d with stage }
  | .left => d

def ring (d : Door) : Door :=
  { d with
    wakeup := d.wakeup.notify
    poller := d.wakeup.tell d.wakeup.notify d.wakeupFd d.poller }

variable {d : Door}

theorem heard_start (cfg : Config) (listenerFd wakeupFd : Fd) :
    (start cfg listenerFd wakeupFd).wakeup.Heard wakeupFd (start cfg listenerFd wakeupFd).poller where
  level := by
    refine ⟨?_, by decide, by decide⟩
    exact (Table.get?_put _ _ _ _).trans (if_pos rfl)
  queued := fun hc => absurd hc (Nat.lt_irrefl 0)

theorem wakeupFd_move (raised : Bool) (r : DoorReply) (burst : AcceptorStage) (d : Door) :
    (d.move raised r burst).wakeupFd = d.wakeupFd := by
  unfold move
  split
  · rfl
  · rfl
  · rfl
  · split
    · split <;> rfl
    · split <;> rfl
  · rfl
  · rfl

theorem heard_move (hd : d.wakeup.Heard d.wakeupFd d.poller) (raised : Bool) (r : DoorReply)
    (burst : AcceptorStage) :
    (d.move raised r burst).wakeup.Heard d.wakeupFd (d.move raised r burst).poller := by
  unfold move
  split
  · exact hd
  · exact hd.await r.wait
  · exact hd
  · split
    · split
      · exact hd
      · exact ⟨hd.level, fun hc => absurd hc (Nat.lt_irrefl 0)⟩
    · split <;> exact hd
  · exact hd
  · exact hd

theorem move_eq_waiting {r : DoorReply} {burst : AcceptorStage}
    (hw : (d.move true r burst).stage = .waiting) :
    d.stage = .waiting ∧ (d.move true r burst).wakeup = d.wakeup := by
  cases hstage : d.stage with
  | waiting => exact ⟨rfl, by rw [move, hstage]⟩
  | looking =>
    rw [move, hstage] at hw
    cases hw
  | serving events =>
    rw [move, hstage] at hw
    cases events with
    | nil => cases hw
    | cons e events =>
      dsimp only at hw
      split at hw
      · split at hw <;> cases hw
      · split at hw <;> cases hw
  | accepting events =>
    rw [move, hstage] at hw
    cases burst <;> cases hw
  | left =>
    rw [move, hstage] at hw
    cases hstage.symm.trans hw

theorem stage_move_ne_waiting (hw : d.stage = .waiting) (raised : Bool) {r : DoorReply}
    (ht : (d.poller.await d.wakeup d.wakeupFd r.wait).2 ≠ none) (burst : AcceptorStage) :
    (d.move raised r burst).stage ≠ .waiting := by
  rw [move, hw]
  dsimp only
  split
  · rename_i hnone
    exact absurd hnone ht
  · exact DoorStage.noConfusion
  · exact DoorStage.noConfusion

end Door
end EventHttp
