import EventHttp.IoError
import EventHttp.Text.Decimal

/-! Why a server does not start, or stops. -/

namespace EventHttp

inductive ServerError where
  | bind (address : String) (error : IoError)
  | socket (error : IoError)
  | poller (error : IoError)
  | wakeup (error : IoError)
  | accept (error : IoError)
  | spawn (error : IoError)
  | worker (id : Nat) (error : IoError)
  | panicked (thread : String)
  deriving DecidableEq, Repr

namespace ServerError

def message : ServerError → String
  | .bind address e => "failed to bind " ++ address ++ ": " ++ e.message
  | .socket e => "socket setup failed: " ++ e.message
  | .poller e => "poller failure: " ++ e.message
  | .wakeup e => "wakeup descriptor failure: " ++ e.message
  | .accept e => "accept failed: " ++ e.message
  | .spawn e => "failed to spawn thread: " ++ e.message
  | .worker id e => "worker " ++ Decimal.text id ++ " failed: " ++ e.message
  | .panicked thread => "thread " ++ thread ++ " panicked"

def source? : ServerError → Option IoError
  | .bind _ e | .worker _ e => some e
  | _ => none

def chain (e : ServerError) : List String :=
  e.message :: (e.source?.map IoError.message).toList

end ServerError
end EventHttp
