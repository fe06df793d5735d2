import EventHttp.Proofs.Connection.Drive
import EventHttp.Server.Worker

/-! What a connection makes of its client's bytes is its own affair.  All that it has in common
with others are the counters, the log and the credentials; the first two it only adds to, and
the last it looks at for a form that is posted.  So where no form is posted, the outcome of a
call, what becomes of the connection and the bytes that go out do not depend on what is shared. -/

namespace EventHttp

def Processed.face (p : Processed) : Next × Connection :=
  (p.next, p.connection)

def Written.face (w : Written) : Except ConnectionError Next × Connection × List UInt8 :=
  (w.outcome, w.connection, w.sent)

namespace Connection

variable {c : Connection}

def waiting? (c : Connection) : Option Request :=
  match c.parser.parse c.input with
  | (parser, .ok .complete, _) => parser.takeRequest.1
  | _ => none

def askedByTake? (c : Connection) (results : List ReadResult) : Option Request :=
  match c.input.fill results with
  | (input, .ok _) => { c with input }.waiting?
  | (_, .error _) => none

def askedByWrite? (c : Connection) (results : List WriteResult) : Option Request :=
  match (c.outgoing.flush results).2.2 with
  | .done => if c.keepAlive && !c.input.isEmpty then { c with parser := .start }.waiting? else none
  | .blocked | .failed _ => none

def asked? (c : Connection) (e : Event) (calls : Calls) : Option Request :=
  if e.isHangupOrError then none
  else if e.isReadable then c.askedByTake? calls.reads
  else if e.isWritable then c.askedByWrite? calls.writes
  else none

def PostsNoForm (asked : Option Request) : Prop :=
  ∀ r ∈ asked, r.formPost? = none

theorem handle_of_formPost? (h : Handler) {r : Request} (hr : r.formPost? = none)
    (store : Credentials) (keepAlive : Bool) :
    (h.handle store r keepAlive).1 = h.serve r.path keepAlive := by
  rw [Handler.handle, Handler.route, hr]

theorem face_answer (h : Handler) {r : Request} (hr : r.formPost? = none) (c : Connection)
    (s s' : Shared) : (c.answer h s r).face = (c.answer h s' r).face := by
  have hsame : (h.handle s.credentials r (r.keepAlive && c.served + 1 < keepAliveMax)).1 =
      (h.handle s'.credentials r (r.keepAlive && c.served + 1 < keepAliveMax)).1 := by
    rw [handle_of_formPost? h hr, handle_of_formPost? h hr]
  unfold answer Processed.face queue
  dsimp only
  rw [hsame]

theorem face_process (h : Handler) (hc : PostsNoForm c.waiting?) (s s' : Shared) :
    (c.process h s).face = (c.process h s').face := by
  unfold waiting? at hc
  unfold process
  cases hp : c.parser.parse c.input with
  | mk parser rest =>
    obtain ⟨outcome, input⟩ := rest
    rw [hp] at hc
    cases outcome with
    | error e => rfl
    | ok progress =>
      cases progress with
      | needMoreData => rfl
      | complete =>
        dsimp only at hc ⊢
        cases ht : parser.takeRequest with
        | mk request after =>
          rw [ht] at hc
          cases request with
          | none => rfl
          | some r => exact face_answer h (hc r rfl) _ s s'

theorem face_written {p p' : Processed} (hf : p.face = p'.face) : p.written.face = p'.written.face := by
  obtain ⟨hn, hc⟩ := Prod.mk.inj hf
  rw [Processed.written, Written.face, hn, hc]
  rfl

theorem face_take (h : Handler) {results : List ReadResult}
    (hc : PostsNoForm (c.askedByTake? results)) (s s' : Shared) :
    (c.take h s results).face = (c.take h s' results).face := by
  unfold askedByTake? at hc
  unfold take read
  cases hf : c.input.fill results with
  | mk input outcome =>
    rw [hf] at hc
    cases outcome with
    | error e => rfl
    | ok n => exact face_written (face_process h hc _ _)

theorem face_afterFlush (h : Handler)
    (hc : PostsNoForm (if c.keepAlive && !c.input.isEmpty then { c with parser := .start }.waiting?
      else none)) (s s' : Shared) :
    (c.afterFlush h s).face = (c.afterFlush h s').face := by
  unfold afterFlush
  cases hk : c.keepAlive with
  | false => rfl
  | true =>
    cases he : c.input.isEmpty with
    | true =>
      dsimp only
      rw [he]
      rfl
    | false =>
      rw [hk, he] at hc
      dsimp only
      rw [he]
      exact face_process h hc s s'

theorem face_write (h : Handler) {results : List WriteResult}
    (hc : PostsNoForm (c.askedByWrite? results)) (s s' : Shared) :
    (c.write h s results).face = (c.write h s' results).face := by
  unfold askedByWrite? at hc
  unfold write
  cases hf : c.outgoing.flush results with
  | mk outgoing rest =>
    obtain ⟨sent, flush⟩ := rest
    rw [hf] at hc
    cases flush with
    | blocked => rfl
    | failed e => rfl
    | done =>
      have hafter := face_afterFlush h (c := { c with outgoing }) hc
        { s with counters := s.counters.wrote sent.length }
        { s' with counters := s'.counters.wrote sent.length }
      obtain ⟨hn, hconnection⟩ := Prod.mk.inj hafter
      unfold Written.face
      dsimp only
      rw [hn, hconnection]

end Connection
end EventHttp
