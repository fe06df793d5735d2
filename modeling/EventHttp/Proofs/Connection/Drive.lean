import EventHttp.Connection.Basic

/-! A connection as a worker drives it: it is read and processed, or written, by
what it waits for, and left alone once it is closed.  The bytes of its client
come in by transfers, which cut them as the kernel likes; `answers` tells what
should go out for them. -/

namespace EventHttp

def Processed.written (p : Processed) : Written :=
  ⟨.ok p.next, p.connection, p.shared, []⟩

def Connection.take (h : Handler) (c : Connection) (s : Shared) (results : List ReadResult) :
    Written :=
  match c.read s results with
  | (.error e, c, s) => ⟨.error e, c, s, []⟩
  | (.ok _, c, s) => (c.process h s).written

structure Drive where
  next : Next
  connection : Connection
  shared : Shared
  sent : List UInt8

/-- One call on a socket: at least one byte moves, or it is interrupted, or would block. -/
inductive Transfer where
  | moved (more : Nat)
  | interrupted
  | blocked
  deriving DecidableEq, Repr

namespace Transfer

def arrivals : List UInt8 → List Transfer → List ReadResult × List UInt8
  | coming, [] => ([], coming)
  | coming, .blocked :: _ => ([.failed (IoError.ofCause .wouldBlock)], coming)
  | coming, .interrupted :: rest =>
    (.failed (IoError.ofCause .interrupted) :: (arrivals coming rest).1, (arrivals coming rest).2)
  | [], .moved _ :: _ => ([.failed (IoError.ofCause .wouldBlock)], [])
  | b :: coming, .moved more :: rest =>
    (.bytes (b :: coming.take more) :: (arrivals (coming.drop more) rest).1,
      (arrivals (coming.drop more) rest).2)

def departure : Transfer → WriteResult
  | .moved more => .accepted (more + 1)
  | .interrupted => .failed (IoError.ofCause .interrupted)
  | .blocked => .failed (IoError.ofCause .wouldBlock)

end Transfer

namespace Drive

def start (peer : String) (shared : Shared) : Drive :=
  ⟨.read, .ofPeer peer, shared, []⟩

def ofProcessed (p : Processed) (sent : List UInt8) : Drive :=
  ⟨p.next, p.connection, p.shared, sent⟩

def readable (h : Handler) (d : Drive) (results : List ReadResult) : Drive :=
  match d.connection.read d.shared results with
  | (.error _, c, s) => ⟨.close, c, s, d.sent⟩
  | (.ok _, c, s) => ofProcessed (c.process h s) d.sent

def writable (h : Handler) (d : Drive) (results : List WriteResult) : Drive :=
  let w := d.connection.write h d.shared results
  match w.outcome with
  | .error _ => ⟨.close, w.connection, w.shared, d.sent ++ w.sent⟩
  | .ok next => ⟨next, w.connection, w.shared, d.sent ++ w.sent⟩

end Drive

/-- A drive, and what its client has sent and has not been read. -/
structure Piped where
  drive : Drive
  coming : List UInt8

namespace Piped

def start (peer : String) (shared : Shared) (stream : List UInt8) : Piped :=
  ⟨.start peer shared, stream⟩

def turn (h : Handler) (p : Piped) (transfers : List Transfer) : Piped :=
  match p.drive.next with
  | .read =>
    ⟨p.drive.readable h (Transfer.arrivals p.coming transfers).1,
      (Transfer.arrivals p.coming transfers).2⟩
  | .write => ⟨p.drive.writable h (transfers.map Transfer.departure), p.coming⟩
  | .close => p

def run (h : Handler) (p : Piped) (schedule : List (List Transfer)) : Piped :=
  schedule.foldl (turn h) p

end Piped

namespace Handler

/-- The responses to what a parser reads off a stream, request after request, up to
the first that does not keep the connection; there are `n` at most, and the last of
`n` does not keep it. -/
def answers (h : Handler) : Nat → Credentials → Parser → List UInt8 → List Response
  | 0, _, _, _ => []
  | n + 1, store, p, stream =>
    match (p.read stream).outcome with
    | .ok .needMoreData => []
    | .error _ => [h.badRequest]
    | .ok .complete =>
      match (p.read stream).parser.takeRequest.1 with
      | none => [h.badRequest]
      | some r =>
        let keepAlive := r.keepAlive && decide (0 < n)
        let (response, store) := h.handle store r keepAlive
        response :: if keepAlive then h.answers n store .start (p.read stream).rest else []

def output (h : Handler) (store : Credentials) (stream : List UInt8) : List UInt8 :=
  (h.answers keepAliveMax store .start stream).flatMap Response.render

end Handler
end EventHttp
