import EventHttp.Polling.Watches

/-! Waiting for descriptors to become ready.  A descriptor enters the queue of
the ready ones when it is armed while ready, and when something arrives for it;
a wait takes descriptors off the front and tells what they are ready for. -/

namespace EventHttp

abbrev Readiness := Fd → UInt32

structure Poller where
  watches : Watches
  disarmed : List Fd
  queue : List Fd

namespace Poller

def empty : Poller := ⟨.empty, [], []⟩

def told (interest : Interest) (ready : UInt32) : UInt32 :=
  ready &&& (interest.bits ||| Event.errorBit ||| Event.hangupBit)

def armed? (p : Poller) (fd : Fd) : Option Interest :=
  if fd ∈ p.disarmed then none else p.watches.get? fd

def toldOf (p : Poller) (ready : Readiness) (fd : Fd) : UInt32 :=
  match p.armed? fd with
  | some interest => told interest (ready fd)
  | none => 0

def enqueue (p : Poller) (fd : Fd) : Poller :=
  if fd ∈ p.queue then p else { p with queue := p.queue ++ [fd] }

def check (p : Poller) (ready : Readiness) (fd : Fd) : Poller :=
  if p.toldOf ready fd = 0 then p else p.enqueue fd

def arm (p : Poller) (ready : Readiness) (fd : Fd) (watches : Watches) : Poller :=
  { p with watches, disarmed := p.disarmed.filter (· ≠ fd) }.check ready fd

def arrive (p : Poller) (fd : Fd) (bits : UInt32) : Poller :=
  match p.armed? fd with
  | some interest => if told interest bits = 0 then p else p.enqueue fd
  | none => p

def hangUp (p : Poller) (fd : Fd) : Poller :=
  p.arrive fd Event.hangupBit

def register (p : Poller) (ready : Readiness) (fd : Fd) (interest : Interest) :
    Except IoCause Poller :=
  (p.watches.register fd interest).map (p.arm ready fd)

def reregister (p : Poller) (ready : Readiness) (fd : Fd) (interest : Interest) :
    Except IoCause Poller :=
  (p.watches.reregister fd interest).map (p.arm ready fd)

def deregister (p : Poller) (fd : Fd) : Except IoCause Poller :=
  (p.watches.deregister fd).map fun watches =>
    ⟨watches, p.disarmed.filter (· ≠ fd), p.queue.filter (· ≠ fd)⟩

def maxMillis : Nat := 0x7FFFFFFF

def timeoutMillis : Option Nat → Int
  | none => -1
  | some ns => Int.ofNat (min ((ns + 999999) / 1000000) maxMillis)

/-- Takes up to `room` events off the queue.  A descriptor that is no longer
ready is dropped; one that is watched by level goes back to the end. -/
def takeEvents (ready : Readiness) (p : Poller) (events : List Event) (room : Nat)
    (again : List Fd) : List Fd → Poller × List Event
  | [] => ({ p with queue := again }, events)
  | fd :: rest =>
    if room = 0 then ({ p with queue := fd :: rest ++ again }, events)
    else
      match p.armed? fd with
      | none => takeEvents ready p events room again rest
      | some interest =>
        let mask := told interest (ready fd)
        if mask = 0 then takeEvents ready p events room again rest
        else
          let events := events ++ [⟨fd, mask⟩]
          if interest.contains .oneShot then
            takeEvents ready { p with disarmed := fd :: p.disarmed } events (room - 1) again rest
          else if interest.isEdgeTriggered then takeEvents ready p events (room - 1) again rest
          else takeEvents ready p events (room - 1) (again ++ [fd]) rest

def wait (p : Poller) (ready : Readiness) (capacity : Nat) : Poller × List Event :=
  takeEvents ready p [] (max capacity 1) [] p.queue

end Poller
end EventHttp
