import EventHttp.Message.Request
import EventHttp.Message.Response
import EventHttp.Message.Path
import EventHttp.Site.Content
import EventHttp.Site.Credentials
import EventHttp.Site.Form

/-! Answering requests.  A form posted to the login or the register page is
checked against the credentials and leads to the welcome or the error page;
everything else is looked up under its own path. -/

namespace EventHttp

def loginRoute : String := "/login.html"
def registerRoute : String := "/register.html"
def welcomePage : String := "/welcome.html"
def errorPage : String := "/error.html"

structure Handler where
  lookup : String → Lookup
  keepAliveSecs : Option Nat

def Request.formPost? (r : Request) : Option (Bool × List (String × String)) :=
  if r.method ≠ .post then none
  else if r.path ≠ loginRoute ∧ r.path ≠ registerRoute then none
  else
    match r.headers.get? "Content-Type" with
    | none => none
    | some type =>
      if Form.isForm type then some (r.path == loginRoute, Form.pairs r.body) else none

namespace Handler

def response (h : Handler) (status : Status) (contentType : String) (body : List UInt8)
    (keepAlive : Bool) : Response :=
  .make status contentType body keepAlive h.keepAliveSecs

def errorResponse (h : Handler) (status : Status) (keepAlive : Bool) : Response :=
  let body := match h.lookup ("/" ++ Decimal.text status.code ++ ".html") with
    | .found body => body
    | _ => Response.statusPage status
  h.response status "text/html" body keepAlive

def badRequest (h : Handler) : Response :=
  h.errorResponse .badRequest false

/-- The path to serve; a form post has its credentials checked on the way. -/
def route (store : Credentials) (r : Request) : String × Credentials :=
  match r.formPost? with
  | none => (r.path, store)
  | some (login, form) =>
    let name := (Form.value? form "username").getD ""
    let password := (Form.value? form "password").getD ""
    match store.verify name password login with
    | (true, store) => (welcomePage, store)
    | (false, store) => (errorPage, store)

def serve (h : Handler) (path : String) (keepAlive : Bool) : Response :=
  match h.lookup path with
  | .found body => h.response .ok (Path.mediaType path) body keepAlive
  | .notFound => h.errorResponse .notFound keepAlive
  | .forbidden => h.errorResponse .forbidden keepAlive

def handle (h : Handler) (store : Credentials) (r : Request) (keepAlive : Bool) :
    Response × Credentials :=
  let (path, store) := route store r
  (h.serve path keepAlive, store)

def describe (h : Handler) : String :=
  "RequestHandler \x7b keep_alive_timeout_secs: " ++
    (match h.keepAliveSecs with
      | some secs => "Some(" ++ Decimal.text secs ++ ")"
      | none => "None") ++
    ", .. \x7d"

end Handler
end EventHttp
