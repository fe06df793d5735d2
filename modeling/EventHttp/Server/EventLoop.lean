import EventHttp.Server.Worker

/-! The loop of a worker's thread: until it sees the flag raised, it closes what is idle, waits,
and serves the events that it was told, one after the other. -/

namespace EventHttp

/-- What one turn of the loop meets: whether the flag is raised, the time by which idle
connections are closed, and what the wait tells.  Each event comes with the time at which it is
served and the calls that are made then. -/
structure Turn where
  raised : Bool
  now : Nat
  told : Except IoError (List (Event × Nat × Calls))

namespace Workplace

def serveAll (h : Handler) (cfg : Config) (p : Workplace) (batch : List (Event × Nat × Calls)) :
    Workplace :=
  batch.foldl (fun p (event, now, calls) => (p.dispatch h cfg now event calls).place) p

def eventLoop (h : Handler) (cfg : Config) :
    Workplace → List Turn → Workplace × Option (Except IoError Unit)
  | p, [] => (p, none)
  | p, turn :: rest =>
    if turn.raised then (p, some (.ok ()))
    else
      let p := (p.expireIdle turn.now).2
      match turn.told with
      | .error e => (p, some (.error e))
      | .ok batch => (p.serveAll h cfg batch).eventLoop h cfg rest

end Workplace
end EventHttp
