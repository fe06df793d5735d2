/-! What a descriptor is watched for, as the bits that the kernel uses. -/

namespace EventHttp

structure Interest where
  bits : UInt32
  deriving DecidableEq, Repr

namespace Interest

def none : Interest := ⟨0⟩
def readable : Interest := ⟨0x1⟩
def writable : Interest := ⟨0x4⟩

def peerHangup : Interest := ⟨0x2000⟩

def edge : Interest := ⟨0x80000000⟩

def oneShot : Interest := ⟨0x40000000⟩

def union (a b : Interest) : Interest :=
  ⟨a.bits ||| b.bits⟩

instance : OrOp Interest := ⟨union⟩

def contains (a b : Interest) : Bool :=
  a.bits &&& b.bits == b.bits

def edgeTriggered (a : Interest) (enabled : Bool) : Interest :=
  if enabled then a ||| edge else a

def isEdgeTriggered (a : Interest) : Bool :=
  a.contains edge

end Interest

structure Event where
  fd : Nat
  mask : UInt32
  deriving DecidableEq, Repr

namespace Event

def errorBit : UInt32 := 0x8
def hangupBit : UInt32 := 0x10

def isReadable (e : Event) : Bool :=
  e.mask &&& Interest.readable.bits != 0

def isWritable (e : Event) : Bool :=
  e.mask &&& Interest.writable.bits != 0

def isHangupOrError (e : Event) : Bool :=
  e.mask &&& (Interest.peerHangup.bits ||| hangupBit ||| errorBit) != 0

end Event
end EventHttp
