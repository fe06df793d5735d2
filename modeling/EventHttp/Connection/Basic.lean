import EventHttp.Buffer.Fill
import EventHttp.Connection.Counters
import EventHttp.Connection.Outgoing
import EventHttp.Message.Parser
import EventHttp.Site.Handler
import EventHttp.Text.Escaped

/-! One client: what has been read and not parsed, what is to be written, and
whether the connection outlives the response.  Each call tells what to wait for
next.  What the sockets say comes in as a list of results. -/

namespace EventHttp

inductive Next where
  | read
  | write
  | close
  deriving DecidableEq, Repr

inductive ConnectionError where
  | io (error : IoError)
  | peerClosed
  | hangUp
  | idleTimeout
  deriving DecidableEq, Repr

namespace ConnectionError

def message : ConnectionError → String
  | .io e => "I/O error: " ++ e.message
  | .peerClosed => "peer closed the connection"
  | .hangUp => "connection hung up"
  | .idleTimeout => "idle timeout"

def isDisconnect : ConnectionError → Bool
  | .peerClosed | .hangUp => true
  | .io e => e.cause = .connectionReset ∨ e.cause = .brokenPipe
  | .idleTimeout => false

end ConnectionError

structure Warning where
  peer : String
  error : ParseError
  line : String
  deriving DecidableEq, Repr

structure Shared where
  credentials : Credentials
  counters : Counters
  warnings : List Warning

structure Connection where
  peer : String
  input : Buffer
  parser : Parser
  outgoing : Outgoing
  keepAlive : Bool
  served : Nat
  deriving DecidableEq, Repr

structure Processed where
  next : Next
  connection : Connection
  shared : Shared

structure Written where
  outcome : Except ConnectionError Next
  connection : Connection
  shared : Shared
  sent : List UInt8

namespace Connection

def ofPeer (peer : String) : Connection :=
  ⟨peer, .empty, .start, .empty, false, 0⟩

def buffered (c : Connection) : Nat :=
  c.input.readable

def pendingWrite (c : Connection) : Nat :=
  c.outgoing.remaining

/-- Drains the socket.  Only a read that succeeds is counted. -/
def read (c : Connection) (s : Shared) (results : List ReadResult) :
    Except ConnectionError Nat × Connection × Shared :=
  match c.input.fill results with
  | (input, .ok n) => (.ok n, { c with input }, { s with counters := s.counters.read n })
  | (input, .error e) =>
    (.error (if e.cause = .endOfStream then .peerClosed else .io e), { c with input }, s)

def queue (c : Connection) (s : Shared) (r : Response) : Connection × Shared :=
  ({ c with outgoing := ⟨r.head.writeTo c.outgoing.head, r.body⟩ },
    { s with counters := s.counters.answered })

def answer (h : Handler) (c : Connection) (s : Shared) (r : Request) : Processed :=
  let served := c.served + 1
  let keepAlive := r.keepAlive && served < keepAliveMax
  let (response, credentials) := h.handle s.credentials r keepAlive
  let (c, s) := { c with keepAlive, served }.queue { s with credentials } response
  ⟨.write, c, s⟩

def loggedBytes : Nat := 256

def refuse (h : Handler) (c : Connection) (s : Shared) (e : ParseError) : Processed :=
  let shown := (c.input.lineEnd?.getD c.input.readable).min loggedBytes
  let warning := ⟨c.peer, e, Escaped.escape (c.input.unread.take shown)⟩
  let (c, s) := { c with keepAlive := false, input := c.input.clear, parser := .start }.queue
    { s with warnings := s.warnings ++ [warning] } h.badRequest
  ⟨.write, c, s⟩

def process (h : Handler) (c : Connection) (s : Shared) : Processed :=
  match c.parser.parse c.input with
  | (parser, .ok .needMoreData, input) => ⟨.read, { c with parser, input }, s⟩
  | (parser, .ok .complete, input) =>
    match parser.takeRequest with
    | (some r, parser) => answer h { c with parser, input } s r
    | (none, parser) =>
      let (c, s) := { c with parser, input, keepAlive := false }.queue s h.badRequest
      ⟨.write, c, s⟩
  | (parser, .error e, input) => refuse h { c with parser, input } s e

/-- Once all is written: closes, waits for more, or goes on with what is buffered. -/
def afterFlush (h : Handler) (c : Connection) (s : Shared) : Processed :=
  if !c.keepAlive then ⟨.close, c, s⟩
  else
    let c := { c with parser := .start }
    if c.input.isEmpty then ⟨.read, c, s⟩ else c.process h s

def write (h : Handler) (c : Connection) (s : Shared) (results : List WriteResult) : Written :=
  let (outgoing, sent, flush) := c.outgoing.flush results
  let c := { c with outgoing }
  let s := { s with counters := s.counters.wrote sent.length }
  match flush with
  | .blocked => ⟨.ok .write, c, s, sent⟩
  | .failed e => ⟨.error (.io e), c, s, sent⟩
  | .done =>
    let p := afterFlush h c s
    ⟨.ok p.next, p.connection, p.shared, sent⟩

end Connection
end EventHttp
