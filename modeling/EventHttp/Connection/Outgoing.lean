import EventHttp.Buffer.View
import EventHttp.IoError

/-! What a connection still has to write: the head of a response, then its
body.  One call offers both to the socket, which takes some of their bytes. -/

namespace EventHttp

inductive WriteResult where
  | accepted (n : Nat)
  | failed (error : IoError)
  deriving DecidableEq, Repr

structure Outgoing where
  head : Buffer
  body : List UInt8
  deriving DecidableEq, Repr

inductive Flush where
  | done
  | blocked
  | failed (error : IoError)
  deriving DecidableEq, Repr

namespace Outgoing

def empty : Outgoing := ⟨.empty, []⟩

def bytes (o : Outgoing) : List UInt8 :=
  o.head.unread ++ o.body

def remaining (o : Outgoing) : Nat :=
  o.head.readable + o.body.length

def isEmpty (o : Outgoing) : Bool :=
  o.remaining == 0

/-- Drops `n` bytes that were written; the body moves only once the head is gone. -/
def advance (o : Outgoing) (n : Nat) : Outgoing :=
  let headLength := o.head.readable
  if n < headLength then { o with head := o.head.retrieve n }
  else ⟨o.head.clear, o.body.drop (n - headLength)⟩

def clear (o : Outgoing) : Outgoing :=
  ⟨o.head.clear, []⟩

def write (o : Outgoing) : WriteResult → Outgoing × Except IoError Nat
  | .accepted n => (o.advance n, .ok n)
  | .failed e => (o, .error e)

/-- Writes until nothing is left or the socket would block or fails; tells what
is left, the bytes that went out, and how it ended.  A socket that says nothing
would block. -/
def flush (o : Outgoing) (results : List WriteResult) : Outgoing × List UInt8 × Flush :=
  if o.isEmpty then (o, [], .done)
  else
    match results with
    | [] => (o, [], .blocked)
    | .accepted 0 :: _ => (o, [], .failed (IoError.ofCause .nothingWritten))
    | .accepted n :: rest =>
      let (left, sent, flush) := (o.advance n).flush rest
      (left, o.bytes.take n ++ sent, flush)
    | .failed e :: rest =>
      if e.cause = .wouldBlock then (o, [], .blocked)
      else if e.cause = .interrupted then o.flush rest
      else (o, [], .failed e)

theorem length_bytes {o : Outgoing} (h : o.head.WellFormed) : o.bytes.length = o.remaining := by
  simp [bytes, remaining, Buffer.length_unread h]

theorem bytes_advance {o : Outgoing} (h : o.head.WellFormed) (n : Nat) :
    (o.advance n).bytes = o.bytes.drop n := by
  have hl := Buffer.length_unread h
  unfold advance bytes
  dsimp only
  split
  · rw [Buffer.unread_retrieve h, List.drop_append_of_le_length (by omega)]
  · have hn : o.head.unread.drop n = [] := List.drop_eq_nil_of_le (by omega)
    rw [Buffer.unread_clear, List.drop_append, hn, hl]

end Outgoing
end EventHttp
