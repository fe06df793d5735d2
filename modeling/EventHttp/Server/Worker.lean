import EventHttp.Connection.Basic
import EventHttp.Polling.Inbox
import EventHttp.Polling.Watches
import EventHttp.Server.Config
import EventHttp.Timer.Fire

/-! One thread's event loop.  A worker keeps three tables by descriptor: what it
watches, when it gives up waiting, and the connections.  An entry enters all of
them when a socket is adopted and leaves them together when it is torn down.
What the system calls give comes in as an argument. -/

namespace EventHttp

inductive TimerAction where
  | closeIdle
  deriving DecidableEq, Repr

structure Pending where
  fd : Fd
  peer : String
  deriving DecidableEq, Repr

structure Worker where
  wakeupFd : Fd
  watches : Watches
  timers : TimerHeap Fd TimerAction
  connections : Table Connection

structure Workplace where
  worker : Worker
  inbox : Inbox Pending
  shared : Shared

structure AdoptFaults where
  setUp : Option IoError
  register : Option IoError
  deriving DecidableEq, Repr

structure Calls where
  drain : Option IoError
  adopt : List AdoptFaults
  reads : List ReadResult
  writes : List WriteResult
  rearm : Option IoError
  deriving DecidableEq, Repr

structure Dispatched where
  place : Workplace
  sent : List UInt8

namespace Worker

def start (wakeupFd : Fd) : Worker :=
  ⟨wakeupFd, Table.empty.put wakeupFd .readable, .empty, .empty⟩

end Worker

namespace Workplace

/-- Forgets a descriptor: its watch, its deadline, and its connection, which is
then counted as closed. -/
def teardown (p : Workplace) (fd : Fd) : Workplace :=
  let w := p.worker
  let worker : Worker :=
    ⟨w.wakeupFd, (w.watches.deregister fd).toOption.getD w.watches, (w.timers.cancel fd).2,
      w.connections.erase fd⟩
  if w.connections.contains fd then
    { p with worker, shared.counters := p.shared.counters.closed }
  else { p with worker }

def release (p : Workplace) : Workplace :=
  { p with shared.counters := p.shared.counters.closed }

def adopt (cfg : Config) (now : Nat) (p : Workplace) (s : Pending) (faults : AdoptFaults) :
    Workplace :=
  match faults with
  | ⟨some _, _⟩ | ⟨none, some _⟩ => p.release
  | ⟨none, none⟩ =>
    match p.worker.watches.register s.fd (cfg.connectionInterest ||| .readable) with
    | .error _ => p.release
    | .ok watches =>
      let w := p.worker
      let timers := match cfg.idleTimeout with
        | some timeout => w.timers.insert now s.fd timeout .closeIdle
        | none => w.timers
      { p with worker := ⟨w.wakeupFd, watches, timers, w.connections.put s.fd (.ofPeer s.peer)⟩ }

def adoptAll (cfg : Config) (now : Nat) :
    Workplace → List Pending → List AdoptFaults → Workplace
  | p, [], _ => p
  | p, s :: rest, [] => adoptAll cfg now (p.adopt cfg now s ⟨none, none⟩) rest []
  | p, s :: rest, f :: faults => adoptAll cfg now (p.adopt cfg now s f) rest faults

def adoptPending (cfg : Config) (now : Nat) (p : Workplace) (calls : Calls) : Workplace :=
  match p.inbox.drain calls.drain with
  | (.error _, inbox) => { p with inbox }
  | (.ok pending, inbox) => adoptAll cfg now { p with inbox } pending calls.adopt

def touch (cfg : Config) (now : Nat) (p : Workplace) (fd : Fd) : Workplace :=
  match cfg.idleTimeout with
  | some timeout => { p with worker.timers := (p.worker.timers.renew now fd timeout).2 }
  | none => p

def rearm (cfg : Config) (p : Workplace) (fd : Fd) (next : Next) (fault : Option IoError) :
    Workplace :=
  let arm (wanted : Interest) : Workplace :=
    match fault, p.worker.watches.reregister fd (cfg.connectionInterest ||| wanted) with
    | none, .ok watches => { p with worker.watches := watches }
    | _, _ => p.teardown fd
  match next with
  | .read => arm .readable
  | .write => arm .writable
  | .close => p.teardown fd

def store (p : Workplace) (fd : Fd) (c : Connection) (s : Shared) : Workplace :=
  { p with worker.connections := p.worker.connections.put fd c, shared := s }

def onReadable (h : Handler) (cfg : Config) (now : Nat) (p : Workplace) (fd : Fd)
    (calls : Calls) : Workplace :=
  let p := p.touch cfg now fd
  match p.worker.connections.get? fd with
  | none => p
  | some c =>
    match c.read p.shared calls.reads with
    | (.error _, c, s) => (p.store fd c s).teardown fd
    | (.ok _, c, s) =>
      let r := c.process h s
      (p.store fd r.connection r.shared).rearm cfg fd r.next calls.rearm

def onWritable (h : Handler) (cfg : Config) (now : Nat) (p : Workplace) (fd : Fd)
    (calls : Calls) : Dispatched :=
  let p := p.touch cfg now fd
  match p.worker.connections.get? fd with
  | none => ⟨p, []⟩
  | some c =>
    let w := c.write h p.shared calls.writes
    let p := p.store fd w.connection w.shared
    match w.outcome with
    | .ok next => ⟨p.rearm cfg fd next calls.rearm, w.sent⟩
    | .error _ => ⟨p.teardown fd, w.sent⟩

def dispatch (h : Handler) (cfg : Config) (now : Nat) (p : Workplace) (e : Event)
    (calls : Calls) : Dispatched :=
  if e.fd = p.worker.wakeupFd then ⟨p.adoptPending cfg now calls, []⟩
  else if !p.worker.connections.contains e.fd then ⟨p, []⟩
  else if e.isHangupOrError then ⟨p.teardown e.fd, []⟩
  else if e.isReadable then ⟨p.onReadable h cfg now e.fd calls, []⟩
  else if e.isWritable then p.onWritable h cfg now e.fd calls
  else ⟨p, []⟩

def expireIdle (now : Nat) (p : Workplace) : Option Nat × Workplace :=
  let fired := p.worker.timers.fire now
    (fun timers fd _ p =>
      let p := { p with worker.timers := timers }.teardown fd
      (p.worker.timers, p)) p 0
  (fired.heap.nextTimeout now, { fired.state with worker.timers := fired.heap })

/-- Closes all connections, and gives up the sockets that still wait. -/
def closeAll (p : Workplace) (fault : Option IoError) : Workplace :=
  let p := p.worker.connections.keys.foldl teardown p
  match p.inbox.drain fault with
  | (.error _, inbox) => { p with inbox }
  | (.ok pending, inbox) => pending.foldl (fun p _ => p.release) { p with inbox }

end Workplace
end EventHttp
