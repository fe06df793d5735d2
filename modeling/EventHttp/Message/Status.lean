import EventHttp.Text.Decimal

/-! The status codes of responses. -/

namespace EventHttp

inductive Status where
  | ok
  | badRequest
  | forbidden
  | notFound
  | internalError
  | unavailable
  deriving DecidableEq, Repr

namespace Status

def code : Status → Nat
  | .ok => 200
  | .badRequest => 400
  | .forbidden => 403
  | .notFound => 404
  | .internalError => 500
  | .unavailable => 503

def all : List Status :=
  [.ok, .badRequest, .forbidden, .notFound, .internalError, .unavailable]

def ofCode? (n : Nat) : Option Status :=
  all.find? fun s => s.code == n

def reason : Status → String
  | .ok => "OK"
  | .badRequest => "Bad Request"
  | .forbidden => "Forbidden"
  | .notFound => "Not Found"
  | .internalError => "Internal Server Error"
  | .unavailable => "Service Unavailable"

def explanation : Status → String
  | .ok => ""
  | .badRequest => "Your request has bad syntax or is inherently impossible to satisfy."
  | .forbidden => "You do not have permission to get this file from the server."
  | .notFound => "The requested file was not found on this server."
  | .internalError => "There was an unusual problem serving the request file."
  | .unavailable => "Server Busy!"

def text (s : Status) : String :=
  Decimal.text s.code ++ " " ++ s.reason

def isSuccess (s : Status) : Bool :=
  s == .ok

@[simp] theorem ofCode?_code (s : Status) : ofCode? s.code = some s := by
  cases s <;> decide

end Status
end EventHttp
