import EventHttp.Proofs.Buffer.ByteQueue
import EventHttp.Proofs.Connection.ScheduleIndependence

/-! What a connection waits for is what it needs.  While it waits to read, nothing is queued
and the parser can do nothing with what is buffered; while it waits to write, something is
queued.  A response is queued only when all of the one before it has gone out. -/

namespace EventHttp

structure Outgoing.Handover (ahead sent : List UInt8) (left : Outgoing)
    (queued : Option Response) : Prop where
  bytes : sent ++ left.bytes = ahead ++ queued.elim [] Response.render
  flushed : ∀ r ∈ queued, sent = ahead ∧ left.head.unread = r.head.render ∧ left.body = r.body

namespace Outgoing

variable {ahead sent : List UInt8} {left : Outgoing} {queued : Option Response}

theorem handover_none (h : sent ++ left.bytes = ahead) : Handover ahead sent left none :=
  ⟨h.trans (List.append_nil ahead).symm, fun _ hr => (nomatch hr)⟩

theorem Handover.behind (h : Handover [] [] left queued) (ahead : List UInt8) :
    Handover ahead ahead left queued where
  bytes := congrArg (ahead ++ ·) h.bytes
  flushed := fun r hr => ⟨rfl, (h.flushed r hr).2⟩

end Outgoing

namespace Connection

/-- Another look at what is buffered would find nothing, and change nothing. -/
def Stalled (c : Connection) : Prop :=
  c.parser.parse c.input = (c.parser, .ok .needMoreData, c.input)

structure Awaits (c : Connection) (next : Next) : Prop where
  input : c.input.Tidy
  head : c.outgoing.head.WellFormed
  reading : next = .read → c.outgoing.bytes = [] ∧ c.Stalled
  writing : next = .write → c.outgoing.bytes ≠ []

structure Serves (ahead : List UInt8) (answered : UInt64) (w : Written) : Prop where
  awaits : ∀ next, w.outcome = .ok next → w.connection.Awaits next
  queued : ∃ queued : Option Response,
    Outgoing.Handover ahead w.sent w.connection.outgoing queued ∧
      w.shared.counters.requests = answered + queued.elim 0 fun _ => 1

theorem stalled_of_read {c : Connection} (hi : c.input.Tidy)
    (h : c.parser.read c.input.unread = c.parser.waiting c.input.unread) : c.Stalled := by
  rw [Stalled, Parser.parse, h, Parser.waiting]
  dsimp only
  rw [Buffer.length_unread hi.toWellFormed, Nat.sub_self, hi.retrieve_zero]

theorem awaits_ofPeer (peer : String) : (ofPeer peer).Awaits .read where
  input := Buffer.tidy_ofCapacity Buffer.initialCapacity
  head := Buffer.wellFormed_ofCapacity Buffer.initialCapacity
  reading := fun _ => by
    have hu : Buffer.empty.unread = [] := Buffer.unread_ofCapacity Buffer.initialCapacity
    refine ⟨congrArg (· ++ []) hu, stalled_of_read (Buffer.tidy_ofCapacity _) ?_⟩
    change Parser.start.read Buffer.empty.unread = Parser.start.waiting Buffer.empty.unread
    rw [hu]
    rfl
  writing := Next.noConfusion

variable {h : Handler} {c : Connection} {s : Shared}

theorem serves_queue (hi : c.input.Tidy) (hh : c.outgoing.head.WellFormed)
    (hb : c.outgoing.bytes = []) (r : Response) :
    Serves [] s.counters.requests ⟨.ok .write, (c.queue s r).1, (c.queue s r).2, []⟩ := by
  obtain ⟨queued, hw, hu, hbody, hq, heq⟩ := exists_queue_eq s hh hb r
  rw [heq]
  refine ⟨?_, some r, ⟨hq, ?_⟩, rfl⟩
  · rintro next ⟨⟩
    exact ⟨hi, hw, Next.noConfusion, fun _ hnil => r.render_ne_nil (hq.symm.trans hnil)⟩
  · rintro _ ⟨⟩
    exact ⟨rfl, hu, hbody⟩

theorem serves_answer (h : Handler) (hi : c.input.Tidy) (hh : c.outgoing.head.WellFormed)
    (hb : c.outgoing.bytes = []) (r : Request) :
    Serves [] s.counters.requests (c.answer h s r).written :=
  let keepAlive := r.keepAlive && c.served + 1 < keepAliveMax
  serves_queue (c := { c with keepAlive, served := c.served + 1 })
    (s := { s with credentials := (h.handle s.credentials r keepAlive).2 }) hi hh hb
    (h.handle s.credentials r keepAlive).1

theorem serves_refuse (h : Handler) (hh : c.outgoing.head.WellFormed)
    (hb : c.outgoing.bytes = []) (e : ParseError) :
    Serves [] s.counters.requests (c.refuse h s e).written :=
  serves_queue (c := { c with keepAlive := false, input := c.input.clear, parser := .start })
    (s := { s with warnings := (c.refuse h s e).shared.warnings }) (Buffer.tidy_clear _) hh hb
    h.badRequest

theorem serves_process (h : Handler) (s : Shared) (hi : c.input.Tidy)
    (hh : c.outgoing.head.WellFormed) (hb : c.outgoing.bytes = []) :
    Serves [] s.counters.requests (c.process h s).written := by
  have hparsed : (c.parser.parse c.input).2.2.Tidy := hi.retrieve _
  cases ho : (c.parser.read c.input.unread).outcome with
  | error e =>
    rw [process_of_error h s ho]
    exact serves_refuse h (c := { c with
      parser := (c.parser.parse c.input).1, input := (c.parser.parse c.input).2.2 }) hh hb e
  | ok progress =>
    cases progress with
    | needMoreData =>
      rw [process_of_needMoreData h s ho]
      refine ⟨?_, none, Outgoing.handover_none hb, (UInt64.add_zero _).symm⟩
      rintro next ⟨⟩
      refine ⟨hparsed, hh, fun _ => ⟨hb, stalled_of_read hparsed ?_⟩, Next.noConfusion⟩
      -- the parser has stopped where another reading would stop at once
      have hagain := Parser.read_rest_of_needMoreData ho
      rw [← Parser.unread_parse c.parser hi.toWellFormed] at hagain
      refine hagain.trans ?_
      rw [Parser.waiting, ← ho]
      exact congrArg (Reading.mk _ _) (Parser.unread_parse c.parser hi.toWellFormed).symm
    | complete =>
      cases ht : (c.parser.read c.input.unread).parser.takeRequest with
      | mk request p =>
        cases request with
        | none =>
          rw [process_of_unsupported h s ho ht]
          exact serves_queue (c := { c with
            parser := p, input := (c.parser.parse c.input).2.2, keepAlive := false }) hparsed hh hb
            h.badRequest
        | some r =>
          rw [process_of_complete h s ho ht]
          exact serves_answer h (c := { c with
            parser := p, input := (c.parser.parse c.input).2.2 }) hparsed hh hb r

theorem sent_take (h : Handler) (c : Connection) (s : Shared) (results : List ReadResult) :
    (c.take h s results).sent = [] := by
  unfold take
  split <;> rfl

theorem Awaits.serves_take (ha : c.Awaits .read) (h : Handler) (s : Shared)
    (results : List ReadResult) :
    Serves c.outgoing.bytes s.counters.requests (c.take h s results) := by
  obtain ⟨hb, -⟩ := ha.reading rfl
  have hfilled := ha.input.fill results
  rw [take, read]
  cases hf : c.input.fill results with
  | mk input outcome =>
    rw [hf] at hfilled
    cases outcome with
    | ok n =>
      rw [hb]
      exact serves_process h { s with counters := s.counters.read n } hfilled ha.head hb
    | error e =>
      refine ⟨?_, none, Outgoing.handover_none rfl, (UInt64.add_zero _).symm⟩
      rintro next ⟨⟩

theorem serves_afterFlush (h : Handler) (s : Shared) (hi : c.input.Tidy)
    (hh : c.outgoing.head.WellFormed) (hb : c.outgoing.bytes = []) :
    Serves [] s.counters.requests (c.afterFlush h s).written := by
  rw [afterFlush]
  split
  · refine ⟨?_, none, Outgoing.handover_none hb, (UInt64.add_zero _).symm⟩
    rintro next ⟨⟩
    exact ⟨hi, hh, Next.noConfusion, Next.noConfusion⟩
  · dsimp only
    split
    · rename_i hempty
      refine ⟨?_, none, Outgoing.handover_none hb, (UInt64.add_zero _).symm⟩
      rintro next ⟨⟩
      refine ⟨hi, hh, fun _ => ⟨hb, stalled_of_read hi ?_⟩, Next.noConfusion⟩
      change Parser.start.read c.input.unread = Parser.start.waiting c.input.unread
      rw [(Buffer.isEmpty_iff hi.toWellFormed).mp hempty]
      rfl
    · exact serves_process h s hi hh hb

theorem Awaits.serves_write {next : Next} (ha : c.Awaits next) (h : Handler) (s : Shared)
    (results : List WriteResult) :
    Serves c.outgoing.bytes s.counters.requests (c.write h s results) := by
  obtain ⟨hw, hbytes, hagree⟩ := Outgoing.flush_spec ha.head results
  cases hf : c.outgoing.flush results with
  | mk left p =>
    obtain ⟨sent, flush⟩ := p
    rw [hf] at hw hbytes hagree
    have hnone := Outgoing.handover_none hbytes
    cases flush with
    | failed e =>
      have hd : c.write h s results = ⟨.error (.io e), { c with outgoing := left },
          { s with counters := s.counters.wrote sent.length }, sent⟩ := by simp only [write, hf]
      rw [hd]
      refine ⟨?_, none, hnone, (UInt64.add_zero _).symm⟩
      rintro next ⟨⟩
    | blocked =>
      have hd : c.write h s results = ⟨.ok .write, { c with outgoing := left },
          { s with counters := s.counters.wrote sent.length }, sent⟩ := by simp only [write, hf]
      rw [hd]
      refine ⟨?_, none, hnone, (UInt64.add_zero _).symm⟩
      rintro next ⟨⟩
      exact ⟨ha.input, hw, Next.noConfusion, fun _ => hagree⟩
    | done =>
      have hd : c.write h s results = { (afterFlush h { c with outgoing := left }
          { s with counters := s.counters.wrote sent.length }).written with sent } := by
        simp only [write, hf]
        rfl
      have hb : left.bytes = [] := hagree
      have hsent : sent = c.outgoing.bytes := by
        rwa [hb, List.append_nil] at hbytes
      obtain ⟨hawaits, queued, hover, hcount⟩ :=
        serves_afterFlush h { s with counters := s.counters.wrote sent.length }
          (c := { c with outgoing := left }) ha.input hw hb
      rw [hd, ← hsent]
      exact ⟨hawaits, queued, hover.behind sent, hcount⟩

end Connection
end EventHttp
