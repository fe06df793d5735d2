import EventHttp.Message.Headers
import EventHttp.Message.Parser
import EventHttp.Message.Response

/-! The client's side of framing: the head ends at the first blank line, and
tells the length of the body that follows. -/

namespace EventHttp

def readLines? (input : List UInt8) : Option (List (List UInt8) × List UInt8) :=
  match _h : splitLine? input with
  | none => none
  | some ([], rest) => some ([], rest)
  | some (line, rest) => (readLines? rest).map fun (lines, rest) => (line :: lines, rest)
termination_by input.length
decreasing_by exact Parser.length_splitLine?_lt _h

namespace ResponseHead

def readStatus? (line : List UInt8) : Option Status := do
  let text ← Utf8.decode? line
  let (_, rest) ← splitFirst? ' ' text
  let (code, _) ← splitFirst? ' ' rest
  Status.ofCode? (← Decimal.natural? code)

def readTimeout? (value : String) : Option Nat := do
  let (_, rest) ← splitFirst? ',' value.toList
  let (_, secs) ← splitFirst? '=' rest
  Decimal.natural? secs

def read? (input : List UInt8) : Option (ResponseHead × List UInt8) := do
  let (lines, rest) ← readLines? input
  let status ← readStatus? (← lines.head?)
  let fields ← lines.tail.mapM fun line => (Headers.read line).toOption
  let contentType ← fields.lookup "Content-Type"
  let contentLength ← Decimal.natural? (← fields.lookup "Content-Length").toList
  let keepAlive := fields.lookup "Connection" == some "keep-alive"
  let secs := (fields.lookup "Keep-Alive").bind readTimeout?
  some (⟨status, keepAlive, secs, contentType, contentLength⟩, rest)

end ResponseHead

/-- The first response of a stream, once all of it is there. -/
def Response.read? (input : List UInt8) : Option (Response × List UInt8) := do
  let (head, rest) ← ResponseHead.read? input
  if rest.length < head.contentLength then none
  else some (⟨head, rest.take head.contentLength⟩, rest.drop head.contentLength)

end EventHttp
