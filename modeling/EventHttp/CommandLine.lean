import EventHttp.LogFilter
import EventHttp.Server.Listener
import EventHttp.Text.Decimal

/-! The command line: options are taken from the left, and the last value of
each counts.  The first argument that asks for something else, or that is wrong,
decides. -/

namespace EventHttp

inductive Flag where
  | host
  | port
  | backlog
  | timeout
  | workers
  | maxConnections
  | resources
  | logLevel
  | levelTriggered
  | linger
  | quiet
  | help
  | version
  deriving DecidableEq, Repr

namespace Flag

def spellings : List (String × Flag) :=
  [("--host", .host), ("-h", .host), ("--port", .port), ("-p", .port), ("--backlog", .backlog),
    ("--timeout-ms", .timeout), ("--workers", .workers), ("--max-connections", .maxConnections),
    ("--resources", .resources), ("--log-level", .logLevel),
    ("--level-triggered", .levelTriggered), ("--linger", .linger), ("--quiet", .quiet),
    ("-q", .quiet), ("--help", .help), ("--version", .version), ("-v", .version)]

def ofArg? (arg : String) : Option Flag :=
  spellings.lookup arg

def takesValue : Flag → Bool
  | .host | .port | .backlog | .timeout | .workers | .maxConnections | .resources | .logLevel =>
    true
  | .levelTriggered | .linger | .quiet | .help | .version => false

end Flag

structure Options where
  config : Config
  logLevel : Option String
  quiet : Bool
  deriving DecidableEq, Repr

inductive UsageError where
  | unknownArgument (arg : String)
  | missingValue (flag : String)
  | invalidValue (what : String) (value : String)
  | noWorkers
  deriving DecidableEq, Repr

inductive Command where
  | serve (options : Options)
  | help
  | version
  | refused (error : UsageError)
  deriving DecidableEq, Repr

namespace UsageError

def message : UsageError → String
  | .unknownArgument arg => "Unknown argument: " ++ arg
  | .missingValue flag => "Error: " ++ flag ++ " requires a value"
  | .invalidValue what value => "Error: invalid " ++ what ++ ": " ++ value
  | .noWorkers => "Error: --workers must be at least 1"

end UsageError

namespace Options

def standard (processors : Nat) : Options :=
  ⟨.standard (max processors 1), none, false⟩

def number (what : String) (limit : Nat) (value : String) : Except UsageError Nat :=
  match Decimal.unsigned? limit value.toList with
  | some n => .ok n
  | none => .error (.invalidValue what value)

def signedNumber (what : String) (low high : Int) (value : String) : Except UsageError Int :=
  match Decimal.signed? low high value.toList with
  | some n => .ok n
  | none => .error (.invalidValue what value)

def setValue (o : Options) (flag : Flag) (value : String) : Except UsageError Options :=
  match flag with
  | .host => .ok { o with config.host := value }
  | .port => (number "port number" UInt16.size value).map fun n => { o with config.port := n }
  | .backlog =>
    (signedNumber "backlog" (-0x80000000) 0x7FFFFFFF value).map fun n =>
      { o with config.backlog := n }
  | .timeout =>
    (number "timeout" UInt64.size value).map fun ms =>
      { o with config.idleTimeout := if ms = 0 then none else some (ms * nanosPerMilli) }
  | .workers =>
    match number "worker count" UInt64.size value with
    | .error e => .error e
    | .ok 0 => .error .noWorkers
    | .ok n => .ok { o with config.workers := n }
  | .maxConnections =>
    (number "connection limit" UInt64.size value).map fun n => { o with config.maxConnections := n }
  | .resources => .ok { o with config.resources := value }
  | .logLevel => .ok { o with logLevel := some value }
  | .levelTriggered | .linger | .quiet | .help | .version => .ok o

def set (o : Options) (flag : Flag) : Options :=
  match flag with
  | .levelTriggered => { o with config.edgeTriggered := false }
  | .linger => { o with config.linger := true }
  | .quiet => { o with quiet := true }
  | _ => o

end Options

namespace Command

def ofArgs (o : Options) : List String → Command
  | [] => .serve o
  | arg :: rest =>
    match Flag.ofArg? arg with
    | none => .refused (.unknownArgument arg)
    | some .help => .help
    | some .version => .version
    | some flag =>
      if flag.takesValue then
        match rest with
        | [] => .refused (.missingValue arg)
        | value :: rest =>
          match o.setValue flag value with
          | .error e => .refused e
          | .ok o => ofArgs o rest
      else ofArgs (o.set flag) rest

end Command

structure Transcript where
  code : Nat
  served : Bool
  out : String
  err : String
  deriving DecidableEq, Repr

namespace Transcript

def versionNumber : String := "0.1.0"

def versionText : String :=
  "miniserver version " ++ versionNumber ++ "\n"

def helpText : String := "
miniserver - An Event-Driven HTTP/1.1 Server on epoll

USAGE:
    miniserver [OPTIONS]

OPTIONS:
    -h, --host <HOST>            Host to bind to (default: 0.0.0.0)
    -p, --port <PORT>            Port to listen on (default: 8888)
        --backlog <N>            listen(2) backlog (default: 1024)
        --level-triggered        Use level-triggered epoll instead of edge-triggered
        --timeout-ms <MS>        Idle connection timeout, 0 disables (default: 60000)
        --workers <N>            Reactor worker threads (default: CPU count)
        --max-connections <N>    Concurrent connection ceiling (default: 65536)
        --resources <DIR>        Directory to serve files from (default: ./resources)
        --linger                 Enable SO_LINGER on the listening socket
        --log-level <FILTER>     Log filter, e.g. debug or miniserver=trace
    -q, --quiet                  Disable logging
    -v, --version                Print version information
        --help                   Print this help message

EXAMPLES:
    miniserver                               # Serve ./resources on 0.0.0.0:8888
    miniserver --port 9006 --workers 8       # Eight reactors on port 9006
    miniserver --timeout-ms 0 --quiet        # No idle eviction, no logs

CONNECTING:
    $ curl -v http://127.0.0.1:8888/
    $ curl -d 'username=ariz&password=pw' http://127.0.0.1:8888/register

"

def rule : String :=
  String.ofList (List.replicate 62 '─')

def banner (c : Config) : String :=
  "\nminiserver v" ++ versionNumber ++ " - Event-Driven HTTP/1.1 Server\n" ++ rule ++
    "\nListening on     " ++ c.bindAddress ++
    "\nTrigger mode     " ++ (if c.edgeTriggered then "edge" else "level") ++
    "\nWorkers          " ++ Decimal.text c.workers ++
    "\nIdle timeout     " ++
      (match c.idleTimeout with
        | some ns => Decimal.text (ns / nanosPerMilli) ++ "ms"
        | none => "disabled") ++
    "\nMax connections  " ++ Decimal.text c.maxConnections ++
    "\nResources        " ++ c.resources ++
    "\n\nUse Ctrl+C to shutdown gracefully.\n\n"

def setIn (width : Nat) (text : String) : String :=
  String.ofList (text.toList.flatMap fun c =>
    if c = '\n' then c :: List.replicate width ' ' else [c])

def causes : List String → String
  | [only] => "    " ++ setIn 4 only ++ "\n"
  | several =>
    String.join (several.mapIdx fun i text =>
      "    " ++ Decimal.text i ++ ": " ++ setIn 7 text ++ "\n")

def startFailure (e : ServerError) : String :=
  "Error: failed to start server\n\nCaused by:\n" ++ causes e.chain

def filterNotes (o : Options) : String :=
  match o.logLevel with
  | some filter => if o.quiet then "" else LogFilter.notes filter
  | none => ""

def ofServe (network : Network) (o : Options) : Transcript :=
  let out := if o.quiet then "" else banner o.config
  match network.bind o.config with
  | .ok _ => ⟨0, true, out, filterNotes o⟩
  | .error e => ⟨1, false, out, filterNotes o ++ startFailure e⟩

def ofCommand (network : Network) : Command → Transcript
  | .serve o => ofServe network o
  | .help => ⟨0, false, helpText, ""⟩
  | .version => ⟨0, false, versionText, ""⟩
  | .refused e =>
    match e with
    | .unknownArgument _ => ⟨1, false, helpText, e.message ++ "\n"⟩
    | _ => ⟨1, false, "", e.message ++ "\n"⟩

def ofArgs (network : Network) (processors : Nat) (args : List String) : Transcript :=
  ofCommand network (.ofArgs (.standard processors) args)

end Transcript
end EventHttp
