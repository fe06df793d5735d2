import EventHttp.Connection.Basic
import EventHttp.Connection.SocketPair

/-! A connection together with its socket pair. -/

namespace EventHttp

structure Session where
  connection : Connection
  pair : SocketPair
  shared : Shared

structure Exchange where
  count : Except ConnectionError Nat
  turns : List (Except ConnectionError Next)

namespace Session

def start (peer : String) (credentials : Credentials) : Session :=
  ⟨.ofPeer peer, .connected, ⟨credentials, .zero, []⟩⟩

def read (s : Session) : Except ConnectionError Nat × Session :=
  let (outcome, connection, shared) := s.connection.read s.shared s.pair.reads
  (outcome, ⟨connection, s.pair.afterReads, shared⟩)

def process (h : Handler) (s : Session) : Next × Session :=
  let p := s.connection.process h s.shared
  (p.next, ⟨p.connection, s.pair, p.shared⟩)

def write (h : Handler) (s : Session) (held : Bool) : Except ConnectionError Next × Session :=
  let w := s.connection.write h s.shared [s.pair.accepts s.connection.pendingWrite]
  let pair := s.pair.deliver w.sent
  (w.outcome, ⟨w.connection, if held then pair else pair.catchUp, w.shared⟩)

def writeOn (h : Handler) : Nat → Next → Session → List (Except ConnectionError Next) × Session
  | 0, _, s => ([], s)
  | turns + 1, next, s =>
    if next ≠ .write then ([], s)
    else
      match s.write h false with
      | (.error e, s) => ([.error e], s)
      | (.ok next, s) =>
        let (rest, s) := writeOn h turns next s
        (.ok next :: rest, s)

def exchange (h : Handler) (s : Session) (data : List UInt8) : Exchange × Session :=
  match { s with pair := s.pair.send data }.read with
  | (.error e, s) => (⟨.error e, []⟩, s)
  | (.ok n, s) =>
    let (next, s) := s.process h
    let (rest, s) := writeOn h (keepAliveMax + 2) next s
    (⟨.ok n, .ok next :: rest⟩, s)

end Session
end EventHttp
