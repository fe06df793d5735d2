import EventHttp.Buffer.Fill
import EventHttp.Connection.Outgoing
import EventHttp.Polling.Interest

/-! The near end of a pair of connected sockets.  What the far end sends is
there at once, and there is always room for what is written to it.  A far end that
is gone does nothing any more. -/

namespace EventHttp

inductive StreamEnd where
  | running
  | ended
  | reset
  deriving DecidableEq, Repr

structure SocketPair where
  incoming : List UInt8
  stream : StreamEnd
  gone : Bool
  outgoing : List UInt8
  received : List UInt8
  deriving DecidableEq, Repr

namespace SocketPair

def connected : SocketPair := ⟨[], .running, false, [], []⟩

def send (p : SocketPair) (data : List UInt8) : SocketPair :=
  if p.stream = .running then { p with incoming := p.incoming ++ data } else p

def deliver (p : SocketPair) (data : List UInt8) : SocketPair :=
  { p with outgoing := p.outgoing ++ data }

def catchUp (p : SocketPair) : SocketPair :=
  { p with outgoing := [], received := p.received ++ p.outgoing }

def handOut (p : SocketPair) : List UInt8 × SocketPair :=
  (p.received, { p with received := [] })

def receive (p : SocketPair) : List UInt8 × SocketPair :=
  p.catchUp.handOut

def shutdown (p : SocketPair) : SocketPair :=
  if p.gone then p else { p with stream := .ended }

def close (p : SocketPair) : SocketPair :=
  if p.gone then p else { p.catchUp with stream := .ended, gone := true }

def abandon (p : SocketPair) : SocketPair :=
  if p.gone then p
  else { p with stream := if p.outgoing = [] then .ended else .reset, gone := true, outgoing := [] }

def reads (p : SocketPair) : List ReadResult :=
  (if p.incoming = [] then [] else [.bytes p.incoming]) ++
    [match p.stream with
      | .running => .failed (IoError.ofCause .wouldBlock)
      | .ended => .bytes []
      | .reset => .failed (IoError.ofCause .connectionReset)]

def afterReads (p : SocketPair) : SocketPair :=
  { p with incoming := [], stream := if p.stream = .reset then .ended else p.stream }

def accepts (p : SocketPair) (n : Nat) : WriteResult :=
  if p.gone ∧ n ≠ 0 then .failed (IoError.ofCause .brokenPipe) else .accepted n

def readiness (p : SocketPair) : UInt32 :=
  (if p.incoming ≠ [] ∨ p.stream ≠ .running then Interest.readable.bits else 0) |||
    Interest.writable.bits |||
    (if p.stream ≠ .running then Interest.peerHangup.bits else 0) |||
    (if p.gone then Event.hangupBit else 0)

end SocketPair
end EventHttp
