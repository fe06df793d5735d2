import EventHttp.Message.Method
import EventHttp.Message.Headers

/-! Requests. -/

namespace EventHttp

structure Request where
  method : Method
  path : String
  version : String
  headers : Headers
  body : List UInt8
  deriving DecidableEq, Repr

def Request.keepAlive (r : Request) : Bool :=
  r.headers.askKeepAlive r.version

end EventHttp
