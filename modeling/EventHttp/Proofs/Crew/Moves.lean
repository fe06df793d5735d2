import EventHttp.Server.Acceptor

/-! The threads of a server side by side: one acceptor, and workers that each have an
inbox.  A move is one thread's next action, which touches the flag, a count of connections
or an inbox at most once, so that a list of moves is an interleaving.  All threads see one
memory: what a move writes, the next one reads.  What the system answers comes with the
move. -/

namespace EventHttp

namespace Counters

def countAccepted (c : Counters) : Counters :=
  { c with accepted := c.accepted + 1 }

def countActive (c : Counters) : Counters :=
  { c with active := c.active + 1 }

theorem countActive_countAccepted (c : Counters) : c.countAccepted.countActive = c.opened := rfl

end Counters

/-- Where the acceptor is in its loop, with the socket that it holds. -/
inductive AcceptorStage where
  | looking
  | waiting
  | accepting
  | checking (s : Pending)
  | refusing (s : Pending)
  | admitting (s : Pending)
  | opening (i : Nat) (s : Pending)
  | handing (i : Nat) (s : Pending)
  | waking (i : Nat)
  | left
  deriving DecidableEq, Repr

structure AcceptorReply where
  fault : Option IoError
  called : Bool
  accept : AcceptResult

namespace AcceptorStage

def next (cfg : Config) : AcceptorStage :=
  if cfg.edgeTriggered then accepting else looking

def afterFault (e : IoError) : AcceptorStage :=
  match e.cause with
  | .wouldBlock | .tooManyFiles | .tooManyFilesInSystem => looking
  | .interrupted | .connectionAborted => accepting
  | _ => left

end AcceptorStage

/-- Where a worker is in its loop, or in the closing that ends it. -/
inductive WorkerStage where
  | looking
  | expiring (now : Nat)
  | waiting
  | serving (events : List Event)
  | taking (events : List Event)
  | adopting (batch : List Pending) (events : List Event)
  | closing (fds : List Fd)
  | resetting
  | emptying
  | releasing (batch : List Pending)
  | left
  deriving DecidableEq, Repr

structure WorkerReply where
  now : Nat
  wait : Except IoError (List Event)
  calls : Calls

structure Desk where
  stage : WorkerStage
  place : Workplace

namespace Desk

/-- A worker's next action.  Draining an inbox is two of them, as the counter is reset
before the queue is taken; of all that an event may do only a closing is counted. -/
def move (h : Handler) (cfg : Config) (raised : Bool) (r : WorkerReply) : Desk → Desk
  | ⟨.looking, p⟩ =>
    if raised then ⟨.closing p.worker.connections.keys, p⟩ else ⟨.expiring r.now, p⟩
  | ⟨.expiring now, p⟩ =>
    match p.worker.timers.dueRoot? now with
    | some e => ⟨.expiring now, p.teardown e.key⟩
    | none => ⟨.waiting, p⟩
  | ⟨.waiting, p⟩ =>
    match r.wait with
    | .ok events => ⟨.serving events, p⟩
    | .error _ => ⟨.closing p.worker.connections.keys, p⟩
  | ⟨.serving [], p⟩ => ⟨.looking, p⟩
  | ⟨.serving (e :: events), p⟩ =>
    if e.fd = p.worker.wakeupFd then
      match r.calls.drain with
      | some _ => ⟨.serving events, p⟩
      | none => ⟨.taking events, { p with inbox := p.inbox.reset }⟩
    else ⟨.serving events, (p.dispatch h cfg r.now e r.calls).place⟩
  | ⟨.taking events, p⟩ => ⟨.adopting p.inbox.take.1 events, { p with inbox := p.inbox.take.2 }⟩
  | ⟨.adopting [] events, p⟩ => ⟨.serving events, p⟩
  | ⟨.adopting (s :: batch) events, p⟩ =>
    ⟨.adopting batch events, p.adopt cfg r.now s (r.calls.adopt.headD ⟨none, none⟩)⟩
  | ⟨.closing (fd :: fds), p⟩ => ⟨.closing fds, p.teardown fd⟩
  | ⟨.closing [], p⟩ => ⟨.resetting, p⟩
  | ⟨.resetting, p⟩ =>
    match r.calls.drain with
    | some _ => ⟨.left, p⟩
    | none => ⟨.emptying, { p with inbox := p.inbox.reset }⟩
  | ⟨.emptying, p⟩ => ⟨.releasing p.inbox.take.1, { p with inbox := p.inbox.take.2 }⟩
  | ⟨.releasing (_ :: batch), p⟩ => ⟨.releasing batch, p.release⟩
  | ⟨.releasing [], p⟩ => ⟨.left, p⟩
  | ⟨.left, p⟩ => ⟨.left, p⟩

end Desk

structure Station where
  stage : WorkerStage
  worker : Worker
  inbox : Inbox Pending

namespace Station

def desk (s : Station) (shared : Shared) : Desk :=
  ⟨s.stage, ⟨s.worker, s.inbox, shared⟩⟩

def inHand (s : Station) : List Pending :=
  match s.stage with
  | .adopting batch _ | .releasing batch => batch
  | _ => []

def load (s : Station) : Nat :=
  s.inHand.length + s.inbox.size + s.worker.connections.size

end Station

def Desk.station (d : Desk) : Station :=
  ⟨d.stage, d.place.worker, d.place.inbox⟩

/-- What has happened so far, which no thread reads: the sockets that were checked, each
with the count it was checked against; those that were answered at the door, and how;
those that were queued, and where; and how many have been given up by workers. -/
structure Ledger where
  checked : List (Pending × Nat)
  answered : List (Pending × Response)
  queued : List (Nat × Pending)
  closes : Nat

structure Crew where
  shared : Shared
  raised : Bool
  turn : Nat
  acceptor : AcceptorStage
  stations : List Station
  ledger : Ledger

inductive Move where
  | raise
  | wake (i : Nat)
  | acceptor (reply : AcceptorReply)
  | worker (i : Nat) (reply : WorkerReply)

namespace Crew

def start (cfg : Config) (credentials : Credentials) (wakeups : Nat → Fd) : Crew where
  shared := ⟨credentials, .zero, []⟩
  raised := false
  turn := 0
  acceptor := .looking
  stations := (List.range (max cfg.workers 1)).map fun i =>
    ⟨.looking, .start (wakeups i), .empty⟩
  ledger := ⟨[], [], [], 0⟩

def reception (c : Crew) : Reception :=
  ⟨c.turn, c.stations.map (·.inbox), c.shared.counters⟩

def atInbox (c : Crew) (i : Nat) (f : Inbox Pending → Inbox Pending) : Crew :=
  { c with stations := c.stations.modify i fun s => { s with inbox := f s.inbox } }

def count (c : Crew) (f : Counters → Counters) : Crew :=
  { c with shared.counters := f c.shared.counters }

def acceptorMove (cfg : Config) (c : Crew) (r : AcceptorReply) : Crew :=
  match c.acceptor with
  | .looking => { c with acceptor := if c.raised then .left else .waiting }
  | .waiting =>
    match r.fault with
    | some _ => { c with acceptor := .left }
    | none => { c with acceptor := if r.called then .accepting else .looking }
  | .accepting =>
    match r.accept with
    | .accepted s => { c with acceptor := .checking s }
    | .failed e => { c with acceptor := .afterFault e }
  | .checking s =>
    { c with
      acceptor := if c.reception.isFull cfg then .refusing s else .admitting s
      ledger.checked := c.ledger.checked ++ [(s, c.shared.counters.active.toNat)] }
  | .refusing s =>
    { c.count Counters.refused with
      acceptor := .next cfg
      ledger.answered := c.ledger.answered ++ [(s, busyResponse)] }
  | .admitting s =>
    { c.count Counters.countAccepted with
      turn := (c.turn + 1) % c.stations.length
      acceptor := .opening c.turn s }
  | .opening i s => { c.count Counters.countActive with acceptor := .handing i s }
  | .handing i s =>
    { c.atInbox i (·.enqueue s) with
      acceptor := .waking i
      ledger.queued := c.ledger.queued ++ [(i, s)] }
  | .waking i => { c.atInbox i Inbox.wake with acceptor := .next cfg }
  | .left => c

def workerMove (h : Handler) (cfg : Config) (c : Crew) (i : Nat) (r : WorkerReply) : Crew :=
  match c.stations[i]? with
  | none => c
  | some s =>
    let d := (s.desk c.shared).move h cfg c.raised r
    { c with
      shared := d.place.shared
      stations := c.stations.set i d.station
      ledger.closes := c.ledger.closes + (s.load - d.station.load) }

def step (h : Handler) (cfg : Config) (c : Crew) : Move → Crew
  | .raise => { c with raised := true }
  | .wake i => c.atInbox i Inbox.wake
  | .acceptor reply => c.acceptorMove cfg reply
  | .worker i reply => c.workerMove h cfg i reply

def run (h : Handler) (cfg : Config) (c : Crew) (moves : List Move) : Crew :=
  moves.foldl (step h cfg) c

end Crew
end EventHttp
