/-! What a server counts.  The counters wrap around at 64 bits. -/

namespace EventHttp

structure Counters where
  accepted : UInt64
  active : UInt64
  rejected : UInt64
  requests : UInt64
  bytesRead : UInt64
  bytesWritten : UInt64
  deriving DecidableEq, Repr

namespace Counters

def zero : Counters := ⟨0, 0, 0, 0, 0, 0⟩

def opened (c : Counters) : Counters :=
  { c with accepted := c.accepted + 1, active := c.active + 1 }

def closed (c : Counters) : Counters :=
  { c with active := c.active - 1 }

def refused (c : Counters) : Counters :=
  { c with rejected := c.rejected + 1 }

def answered (c : Counters) : Counters :=
  { c with requests := c.requests + 1 }

def read (c : Counters) (n : Nat) : Counters :=
  { c with bytesRead := c.bytesRead + .ofNat n }

def wrote (c : Counters) (n : Nat) : Counters :=
  { c with bytesWritten := c.bytesWritten + .ofNat n }

end Counters
end EventHttp
