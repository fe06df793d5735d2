import EventHttp.IoError
import EventHttp.Polling.Interest
import EventHttp.Polling.Table

/-! The descriptors that a poller watches, each with the interest it was last
armed with. -/

namespace EventHttp

abbrev Watches := Table Interest

namespace Watches

def register (w : Watches) (fd : Fd) (interest : Interest) : Except IoCause Watches :=
  if w.contains fd then .error .alreadyExists else .ok (w.put fd interest)

def reregister (w : Watches) (fd : Fd) (interest : Interest) : Except IoCause Watches :=
  if w.contains fd then .ok (w.put fd interest) else .error .notFound

def deregister (w : Watches) (fd : Fd) : Except IoCause Watches :=
  if w.contains fd then .ok (w.erase fd) else .error .notFound

end Watches
end EventHttp
