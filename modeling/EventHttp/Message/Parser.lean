import EventHttp.Buffer.Basic
import EventHttp.Message.Path
import EventHttp.Message.Request
import EventHttp.Text.Decimal

/-! Reading requests off a byte stream that arrives in parts.  A line is taken
only once its end has arrived, and a body once all of it has. -/

namespace EventHttp

inductive ParseError where
  | malformedRequestLine
  | malformedHeader
  | unsupportedMethod (token : String)
  | missingContentLength
  | invalidContentLength (value : String)
  | invalidUtf8
  deriving DecidableEq, Repr

def ParseError.message : ParseError → String
  | .malformedRequestLine => "malformed request line"
  | .malformedHeader => "malformed header line"
  | .unsupportedMethod token => "unsupported method: " ++ token
  | .missingContentLength => "missing Content-Length"
  | .invalidContentLength value => "invalid Content-Length: " ++ value
  | .invalidUtf8 => "invalid UTF-8 in request head"

inductive Progress where
  | complete
  | needMoreData
  deriving DecidableEq, Repr

structure RequestLine where
  method : String
  path : String
  version : String
  deriving DecidableEq, Repr

def RequestLine.ofText? (line : List Char) : Option RequestLine :=
  match splitFirst? ' ' line with
  | none => none
  | some (method, rest) =>
    match splitFirst? ' ' rest with
    | none => none
    | some (path, rest) =>
      match rest with
      | 'H' :: 'T' :: 'T' :: 'P' :: '/' :: version =>
        if ' ' ∈ version then none
        else some ⟨String.ofList method, Path.normalize (String.ofList path), String.ofList version⟩
      | _ => none

def RequestLine.read (line : List UInt8) : Except ParseError RequestLine :=
  match Utf8.decode? line with
  | none => .error .invalidUtf8
  | some text =>
    match ofText? text with
    | none => .error .malformedRequestLine
    | some l => .ok l

def Headers.read (line : List UInt8) : Except ParseError (String × String) :=
  match Utf8.decode? line with
  | none => .error .invalidUtf8
  | some text =>
    match splitFirst? ':' text with
    | none => .error .malformedHeader
    | some (name, ' ' :: value) => .ok (String.ofList name, String.ofList value)
    | some (name, value) => .ok (String.ofList name, String.ofList value)

def Headers.contentLength (h : Headers) : Except ParseError Nat :=
  match h.get? "Content-Length" with
  | none => .error .missingContentLength
  | some value =>
    match Decimal.unsigned? UInt64.size (Blank.trim value.toList) with
    | none => .error (.invalidContentLength value)
    | some n => .ok n

inductive Parser where
  | start
  | headers (line : RequestLine) (fields : Headers)
  | body (line : RequestLine) (fields : Headers)
  | done (line : RequestLine) (fields : Headers) (content : List UInt8)
  deriving DecidableEq, Repr

structure Reading where
  parser : Parser
  outcome : Except ParseError Progress
  rest : List UInt8

namespace Parser

def readBody (line : RequestLine) (fields : Headers) (input : List UInt8) : Reading :=
  match fields.contentLength with
  | .error e => ⟨.body line fields, .error e, input⟩
  | .ok n =>
    if input.length < n then ⟨.body line fields, .ok .needMoreData, input⟩
    else ⟨.done line fields (input.take n), .ok .complete, input.drop n⟩

def endHead (line : RequestLine) (fields : Headers) (input : List UInt8) : Reading :=
  match Method.ofToken? line.method with
  | none => ⟨.headers line fields, .error (.unsupportedMethod line.method), input⟩
  | some .get => ⟨.done line fields [], .ok .complete, input⟩
  | some .post => readBody line fields input

theorem length_splitLineFrom_lt {seen s a b : List UInt8}
    (h : splitLineFrom seen s = some (a, b)) : b.length < s.length := by
  fun_induction splitLineFrom seen s with
  | case1 => simp at h
  | case2 => simp at h
  | case3 seen x y rest hxy =>
    obtain ⟨_, rfl⟩ := Prod.mk.inj (Option.some.inj h)
    simp only [List.length_cons]
    omega
  | case4 seen x y rest hxy ih => have := ih h; simp at this ⊢; omega

theorem length_splitLine?_lt {s a b : List UInt8} (h : splitLine? s = some (a, b)) :
    b.length < s.length :=
  length_splitLineFrom_lt h

def readHeaders (line : RequestLine) (fields : Headers) (input : List UInt8) : Reading :=
  match _h : splitLine? input with
  | none => ⟨.headers line fields, .ok .needMoreData, input⟩
  | some ([], rest) => endHead line fields rest
  | some (x :: xs, rest) =>
    match Headers.read (x :: xs) with
    | .error e => ⟨.headers line fields, .error e, input⟩
    | .ok (name, value) => readHeaders line (fields.put name value) rest
termination_by input.length
decreasing_by exact length_splitLine?_lt _h

def readLine (input : List UInt8) : Reading :=
  match splitLine? input with
  | none => ⟨.start, .ok .needMoreData, input⟩
  | some (l, rest) =>
    match RequestLine.read l with
    | .error e => ⟨.start, .error e, input⟩
    | .ok line => readHeaders line .empty rest

def read (p : Parser) (input : List UInt8) : Reading :=
  match p with
  | .start => readLine input
  | .headers line fields => readHeaders line fields input
  | .body line fields => readBody line fields input
  | .done line fields content => ⟨.done line fields content, .ok .complete, input⟩

def parse (p : Parser) (b : Buffer) : Parser × Except ParseError Progress × Buffer :=
  let r := p.read b.unread
  (r.parser, r.outcome, b.retrieve (b.readable - r.rest.length))

def requestLine? : Parser → Option RequestLine
  | .start => none
  | .headers l _ | .body l _ | .done l _ _ => some l

def fields : Parser → Headers
  | .start => .empty
  | .headers _ h | .body _ h | .done _ h _ => h

def content : Parser → List UInt8
  | .done _ _ c => c
  | _ => []

def methodToken (p : Parser) : String :=
  p.requestLine?.elim "" (·.method)

def path (p : Parser) : String :=
  p.requestLine?.elim "" (·.path)

def version (p : Parser) : String :=
  p.requestLine?.elim "" (·.version)

def isComplete : Parser → Bool
  | .done .. => true
  | _ => false

def header? (p : Parser) (name : String) : Option String :=
  p.fields.get? name

def keepAlive (p : Parser) : Bool :=
  p.fields.askKeepAlive p.version

def takeRequest (p : Parser) : Option Request × Parser :=
  match p with
  | .done line fields content =>
    match Method.ofToken? line.method with
    | some method => (some ⟨method, line.path, line.version, fields, content⟩, start)
    | none => (none, p)
  | _ => (none, p)

end Parser
end EventHttp
