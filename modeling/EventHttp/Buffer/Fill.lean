import EventHttp.Buffer.Basic
import EventHttp.IoError

/-! Draining a socket into a buffer.  Each read scatters its bytes over the tail
of the buffer and a scratch area; what fell into the scratch area is appended. -/

namespace EventHttp

inductive ReadResult where
  | bytes (data : List UInt8)
  | failed (error : IoError)
  deriving DecidableEq, Repr

namespace Buffer

def scratchSize : Nat := 65536

def scatter (b : Buffer) (data : List UInt8) : Buffer :=
  if data.length ≤ b.writable then b.fillTail data
  else (b.fillTail (data.take b.writable)).append (data.drop b.writable)

/-- Reads until the socket would block, ends or fails, after `total` bytes.
A socket with nothing more to say would block. -/
def fillFrom (total : Nat) (b : Buffer) : List ReadResult → Buffer × Except IoError Nat
  | [] => (b, .ok total)
  | .failed e :: rest =>
    if e.cause = .wouldBlock then (b, .ok total)
    else if e.cause = .interrupted then fillFrom total b rest
    else (b, .error e)
  | .bytes [] :: _ => (b, if total = 0 then .error (IoError.ofCause .endOfStream) else .ok total)
  | .bytes (x :: data) :: rest =>
    fillFrom (total + (x :: data).length) (b.scatter (x :: data)) rest

def fill (b : Buffer) (results : List ReadResult) : Buffer × Except IoError Nat :=
  fillFrom 0 b results

end Buffer
end EventHttp
