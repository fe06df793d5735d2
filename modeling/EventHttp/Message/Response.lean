import EventHttp.Buffer.View
import EventHttp.Message.Status

/-! Responses: a head that frames the body by its length, and the body. -/

namespace EventHttp

def keepAliveMax : Nat := 6

structure ResponseHead where
  status : Status
  keepAlive : Bool
  keepAliveSecs : Option Nat
  contentType : String
  contentLength : Nat
  deriving DecidableEq, Repr

namespace ResponseHead

def connectionLines (h : ResponseHead) : List String :=
  if h.keepAlive then
    ["Connection: keep-alive",
      match h.keepAliveSecs with
      | some secs => "Keep-Alive: max=" ++ Decimal.text keepAliveMax ++ ", timeout=" ++ Decimal.text secs
      | none => "Keep-Alive: max=" ++ Decimal.text keepAliveMax]
  else ["Connection: close"]

def lines (h : ResponseHead) : List String :=
  ["HTTP/1.1 " ++ h.status.text] ++ h.connectionLines ++
    ["Content-Type: " ++ h.contentType, "Content-Length: " ++ Decimal.text h.contentLength, ""]

def render (h : ResponseHead) : List UInt8 :=
  h.lines.flatMap fun line => bytesOf line ++ crlf

def writeTo (h : ResponseHead) (b : Buffer) : Buffer :=
  b.append h.render

theorem unread_writeTo {b : Buffer} (hb : b.WellFormed) (h : ResponseHead) :
    (h.writeTo b).unread = b.unread ++ h.render :=
  Buffer.unread_append hb _

end ResponseHead

structure Response where
  head : ResponseHead
  body : List UInt8
  deriving DecidableEq, Repr

namespace Response

def make (status : Status) (contentType : String) (body : List UInt8) (keepAlive : Bool)
    (keepAliveSecs : Option Nat) : Response :=
  ⟨⟨status, keepAlive, keepAliveSecs, contentType, body.length⟩, body⟩

def statusPage (s : Status) : List UInt8 :=
  bytesOf ("<html><title>Error</title><body bgcolor=\"ffffff\">" ++ Decimal.text s.code ++ " : " ++
    s.reason ++ "\n<p>" ++ s.explanation ++ "</p><hr><em>miniserver</em></body></html>")

def render (r : Response) : List UInt8 :=
  r.head.render ++ r.body

end Response
end EventHttp
