import EventHttp.Polling.Inbox
import EventHttp.Server.Error

/-! Stopping a server: a flag that every thread looks at between waits, and
wakeups so that no thread waits past it.  Also what its threads leave behind. -/

namespace EventHttp

structure ShutdownSignal (α : Type) where
  raised : Bool
  inboxes : List (Inbox α)
  acceptor : Wakeup

namespace ShutdownSignal

variable {α : Type}

def wakeAll (s : ShutdownSignal α) : ShutdownSignal α :=
  { s with inboxes := s.inboxes.map Inbox.wake, acceptor := s.acceptor.notify }

/-- Raises the flag; only the call that raises it wakes anybody. -/
def trigger (s : ShutdownSignal α) : ShutdownSignal α :=
  if s.raised then s else { s with raised := true }.wakeAll

theorem trigger_raised (s : ShutdownSignal α) : s.trigger.raised = true := by
  unfold trigger
  split <;> simp_all [wakeAll]

@[simp] theorem trigger_trigger (s : ShutdownSignal α) : s.trigger.trigger = s.trigger := by
  rw [trigger, if_pos s.trigger_raised]

end ShutdownSignal

inductive ThreadEnd where
  | finished
  | failed (error : ServerError)
  | panicked
  deriving DecidableEq, Repr

def workerName (id : Nat) : String :=
  "worker-" ++ Decimal.text id

def acceptorName : String := "acceptor"

def threadNames (workers : Nat) : List String :=
  (List.range workers).map workerName ++ [acceptorName]

def ThreadEnd.error? (name : String) : ThreadEnd → Option ServerError
  | .finished => none
  | .failed e => some e
  | .panicked => some (.panicked name)

/-- Whether a thread that ends so has told the others to stop.  One that panics
tells nobody; whoever waits for it does that. -/
def ThreadEnd.raisesFlag : ThreadEnd → Bool
  | .failed _ => true
  | .finished | .panicked => false

def joinThreads (ends : List (String × ThreadEnd)) : Except ServerError Unit :=
  match ends.findSome? fun (name, e) => e.error? name with
  | some e => .error e
  | none => .ok ()

end EventHttp
