import EventHttp.Connection.Counters
import EventHttp.Message.Response
import EventHttp.Polling.Inbox
import EventHttp.Server.Config
import EventHttp.Server.Error
import EventHttp.Server.Worker

/-! Taking connections in.  Below the ceiling each goes to the next worker in
turn; at the ceiling it is told that the server is busy, and closed. -/

namespace EventHttp

inductive AcceptResult where
  | accepted (socket : Pending)
  | failed (error : IoError)
  deriving DecidableEq, Repr

structure Reception where
  turn : Nat
  inboxes : List (Inbox Pending)
  counters : Counters

def busyMessage : String := "Server Busy!"

def busyResponse : Response :=
  .make .unavailable "text/plain" (bytesOf busyMessage) false none

namespace Reception

def isFull (cfg : Config) (r : Reception) : Bool :=
  cfg.maxConnections ≤ r.counters.active.toNat

def handOver (r : Reception) (s : Pending) : Reception :=
  ⟨(r.turn + 1) % r.inboxes.length, r.inboxes.modify r.turn (·.push s), r.counters.opened⟩

def takeIn (cfg : Config) (r : Reception) (s : Pending) : Bool × Reception :=
  if r.isFull cfg then (false, { r with counters := r.counters.refused })
  else (true, r.handOver s)

/-- Accepts until there is nobody left, or only once when watched by level.
Gives the sockets that were refused. -/
def acceptBurst (cfg : Config) (r : Reception) :
    List AcceptResult → Except ServerError (List Pending × Reception)
  | [] => .ok ([], r)
  | .accepted s :: rest =>
    let (admitted, r) := r.takeIn cfg s
    let refused := if admitted then [] else [s]
    if cfg.edgeTriggered then
      (r.acceptBurst cfg rest).map fun (more, r) => (refused ++ more, r)
    else .ok (refused, r)
  | .failed e :: rest =>
    match e.cause with
    | .wouldBlock | .tooManyFiles | .tooManyFilesInSystem => .ok ([], r)
    | .interrupted | .connectionAborted => r.acceptBurst cfg rest
    | _ => .error (.accept e)

end Reception
end EventHttp
