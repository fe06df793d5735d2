import EventHttp.Connection.SocketPair
import EventHttp.Polling.Poller

/-! Socket pairs whose near ends one poller watches.  What happens at a far end
reaches the poller if it changes anything at the near end. -/

namespace EventHttp

structure PolledPairs where
  poller : Poller
  pairs : Table SocketPair

namespace PolledPairs

def empty : PolledPairs := ⟨.empty, .empty⟩

def pair (s : PolledPairs) (fd : Fd) : SocketPair :=
  (s.pairs.get? fd).getD .connected

def readiness (s : PolledPairs) : Readiness := fun fd =>
  match s.pairs.get? fd with
  | some p => p.readiness
  | none => 0

def connect (s : PolledPairs) (fd : Fd) : PolledPairs :=
  let poller := match s.poller.deregister fd with
    | .ok p => p
    | .error _ => s.poller
  ⟨poller, s.pairs.put fd .connected⟩

def register (s : PolledPairs) (fd : Fd) (interest : Interest) : Except IoCause PolledPairs :=
  (s.poller.register s.readiness fd interest).map fun poller => { s with poller }

def reregister (s : PolledPairs) (fd : Fd) (interest : Interest) : Except IoCause PolledPairs :=
  (s.poller.reregister s.readiness fd interest).map fun poller => { s with poller }

def deregister (s : PolledPairs) (fd : Fd) : Except IoCause PolledPairs :=
  (s.poller.deregister fd).map fun poller => { s with poller }

def send (s : PolledPairs) (fd : Fd) (data : List UInt8) : PolledPairs :=
  let p := s.pair fd
  if data = [] ∨ p.stream ≠ .running then s
  else ⟨s.poller.arrive fd Interest.readable.bits, s.pairs.put fd (p.send data)⟩

def read (s : PolledPairs) (fd : Fd) : List UInt8 × PolledPairs :=
  let p := s.pair fd
  (p.incoming, { s with pairs := s.pairs.put fd p.afterReads })

def close (s : PolledPairs) (fd : Fd) : PolledPairs :=
  let p := s.pair fd
  if p.gone then s else ⟨s.poller.hangUp fd, s.pairs.put fd p.close⟩

def wait (s : PolledPairs) (capacity : Nat) : List Event × PolledPairs :=
  let (poller, events) := s.poller.wait s.readiness capacity
  (events, { s with poller })

end PolledPairs
end EventHttp
