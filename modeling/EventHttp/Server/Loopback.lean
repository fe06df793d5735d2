import EventHttp.Connection.SocketPair
import EventHttp.Message.ResponseReader
import EventHttp.Polling.Poller
import EventHttp.Server.Acceptor
import EventHttp.Server.Listener
import EventHttp.Server.Shutdown

/-! A whole server and its clients on one machine.  Every thread runs as far as
it can after each step of a client, and the clock moves only when a client waits
for the server and nothing else is left to do. -/

namespace EventHttp

structure Client where
  fd : Fd
  pair : SocketPair
  closed : Bool

structure Loopback where
  config : Config
  handler : Handler
  network : Network
  now : Nat
  nextFd : Fd
  clients : List (Nat × Client)
  workers : List Worker
  reception : Reception
  shared : Shared
  stopped : Bool

namespace Loopback

def start (network : Network) (config : Config) (handler : Handler) (credentials : Credentials) :
    Except ServerError Loopback :=
  (network.bind config).map fun _ =>
    let workers := max config.workers 1
    { config, handler, network
      now := 0
      nextFd := workers
      clients := []
      workers := (List.range workers).map Worker.start
      reception := ⟨0, List.replicate workers .empty, .zero⟩
      shared := ⟨credentials, .zero, []⟩
      stopped := false }

def counters (m : Loopback) : Counters :=
  m.shared.counters

def clientOf? (m : Loopback) (fd : Fd) : Option Client :=
  (m.clients.find? fun c => c.2.fd == fd).map (·.2)

def updateClient (m : Loopback) (fd : Fd) (f : Client → Client) : Loopback :=
  { m with clients := m.clients.map fun (id, c) => if c.fd = fd then (id, f c) else (id, c) }

def workplace? (m : Loopback) (i : Nat) : Option Workplace := do
  some ⟨← m.workers[i]?, ← m.reception.inboxes[i]?, m.shared⟩

def putBack (m : Loopback) (i : Nat) (p : Workplace) : Loopback :=
  let before := (m.workers[i]?.map fun w => w.connections.keys).getD []
  let gone := before.filter fun fd => !p.worker.connections.contains fd
  let m := { m with
    workers := m.workers.set i p.worker
    reception.inboxes := m.reception.inboxes.set i p.inbox
    reception.counters := p.shared.counters
    shared := p.shared }
  gone.foldl (fun m fd => m.updateClient fd fun c => { c with closed := true }) m

def nextEvent? (m : Loopback) (p : Workplace) : Option Event :=
  if p.inbox.wakeup.isSignalled then some ⟨p.worker.wakeupFd, Interest.readable.bits⟩
  else
    p.worker.watches.entries.findSome? fun (fd, interest) =>
      (m.clientOf? fd).bind fun c =>
        let mask := Poller.told interest c.pair.readiness
        if mask = 0 then none else some ⟨fd, mask⟩

def calls (m : Loopback) (p : Workplace) (e : Event) : Calls :=
  match m.clientOf? e.fd, p.worker.connections.get? e.fd with
  | some c, some conn => ⟨none, [], c.pair.reads, [c.pair.accepts conn.pendingWrite], none⟩
  | _, _ => ⟨none, [], [], [], none⟩

def workerTurn? (m : Loopback) (i : Nat) : Option Loopback := do
  let p ← m.workplace? i
  let e ← m.nextEvent? p
  let d := p.dispatch m.handler m.config m.now e (m.calls p e)
  let m := m.putBack i d.place
  some (m.updateClient e.fd fun c =>
    { c with pair := (if e.isReadable then c.pair.afterReads else c.pair).deliver d.sent })

def settle : Nat → Loopback → Loopback
  | 0, m => m
  | n + 1, m =>
    match (List.range m.workers.length).findSome? m.workerTurn? with
    | some m => settle n m
    | none => m

def turns (m : Loopback) : Nat :=
  (m.clients.length + 1) * (4 * keepAliveMax)

def settled (m : Loopback) : Loopback :=
  m.settle m.turns

def expireAll (m : Loopback) : Loopback :=
  (List.range m.workers.length).foldl (fun m i =>
    match m.workplace? i with
    | some p => m.putBack i (p.expireIdle m.now).2
    | none => m) m

def advance? (m : Loopback) : Option Loopback :=
  match (m.workers.filterMap fun w => w.timers.nextTimeout m.now).min? with
  | some wait => some { m with now := m.now + wait }.expireAll
  | none => none

/-- Lets time pass until something holds or nothing can happen any more. -/
def waitUntil (holds : Loopback → Bool) : Nat → Loopback → Loopback
  | 0, m => m
  | n + 1, m =>
    if holds m then m
    else match m.advance? with
      | some m => waitUntil holds n m
      | none => m

def connect (m : Loopback) (id : Nat) : Except IoError Loopback :=
  match m.network.unreachable with
  | some cause => .error (IoError.ofCause cause)
  | none =>
    let fd := m.nextFd
    let (admitted, reception) := m.reception.takeIn m.config ⟨fd, Decimal.text id⟩
    let pair := if admitted then .connected else SocketPair.connected.deliver busyResponse.render
    .ok { m with
      nextFd := fd + 1
      clients := (id, ⟨fd, pair, !admitted⟩) :: m.clients.filter (·.1 ≠ id)
      reception
      shared.counters := reception.counters }.settled

def client? (m : Loopback) (id : Nat) : Option Client :=
  m.clients.lookup id

def onPair (m : Loopback) (id : Nat) (f : SocketPair → SocketPair) : Loopback :=
  match m.client? id with
  | some c => (m.updateClient c.fd fun c => { c with pair := f c.pair }).settled
  | none => m

def send (m : Loopback) (id : Nat) (data : List UInt8) : Loopback :=
  m.onPair id (·.send data)

def close (m : Loopback) (id : Nat) : Loopback :=
  m.onPair id .close

def isClosed (id : Nat) (m : Loopback) : Bool :=
  (m.client? id).all (·.closed)

def received (id : Nat) (m : Loopback) : List UInt8 :=
  ((m.client? id).map (·.pair.catchUp.received)).getD []

def keepReceived (m : Loopback) (id : Nat) (rest : List UInt8) : Loopback :=
  m.onPair id fun p => { p.catchUp with received := rest }

def receive (m : Loopback) (id : Nat) : Option Response × Loopback :=
  let m := m.waitUntil (fun m => (Response.read? (received id m)).isSome || isClosed id m) m.turns
  match Response.read? (received id m) with
  | some (r, rest) => (some r, m.keepReceived id rest)
  | none => (none, m)

def receiveAll (m : Loopback) (id : Nat) : List UInt8 × Loopback :=
  let m := m.waitUntil (isClosed id) m.turns
  (received id m, m.keepReceived id [])

def awaitActive (m : Loopback) (n : Nat) : Nat × Loopback :=
  let m := m.waitUntil (fun m => m.counters.active.toNat == n) m.turns
  (m.counters.active.toNat, m)

def shutdown (m : Loopback) : Loopback :=
  let signal := ShutdownSignal.trigger ⟨m.stopped, m.reception.inboxes, .empty⟩
  (List.range m.workers.length).foldl (fun m i =>
    match m.workplace? i with
    | some p => m.putBack i (p.closeAll none)
    | none => m) { m with stopped := signal.raised, reception.inboxes := signal.inboxes }

def join (m : Loopback) : Except ServerError Unit :=
  joinThreads ((threadNames m.workers.length).map fun name => (name, .finished))

end Loopback
end EventHttp
