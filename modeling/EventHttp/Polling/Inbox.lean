import EventHttp.IoError
import EventHttp.Polling.Wakeup

/-! A queue between threads, with the counter that wakes its owner.  A push
enqueues and then notifies; a drain resets the counter and then takes the queue,
so what is enqueued after the reset is notified after it. -/

namespace EventHttp

structure Inbox (α : Type) where
  queue : List α
  wakeup : Wakeup
  deriving Repr

namespace Inbox

variable {α : Type}

def empty : Inbox α := ⟨[], .empty⟩

def size (b : Inbox α) : Nat :=
  b.queue.length

def isEmpty (b : Inbox α) : Bool :=
  b.queue.isEmpty

def enqueue (b : Inbox α) (a : α) : Inbox α :=
  { b with queue := b.queue ++ [a] }

def wake (b : Inbox α) : Inbox α :=
  { b with wakeup := b.wakeup.notify }

def push (b : Inbox α) (a : α) : Inbox α :=
  (b.enqueue a).wake

def reset (b : Inbox α) : Inbox α :=
  { b with wakeup := b.wakeup.drain.2 }

def take (b : Inbox α) : List α × Inbox α :=
  (b.queue, { b with queue := [] })

/-- Resets the counter and takes the queue; when the reset fails nothing is taken. -/
def drain (b : Inbox α) (fault : Option IoError) : Except IoError (List α) × Inbox α :=
  match fault with
  | some e => (.error e, b)
  | none =>
    let (taken, b) := b.reset.take
    (.ok taken, b)

end Inbox
end EventHttp
