import EventHttp.Proofs.Connection.ScheduleIndependence
import EventHttp.Proofs.Parser.Recorded

/-! What is complete is answered.  A connection uses its parser, and does nothing else to it; so
its parser holds a request whenever it says so, and the refusal that stands behind a request that
cannot be taken is never reached. -/

namespace EventHttp.Connection

variable {h : Handler} {c : Connection} {s : Shared}

def AnswersComplete (c : Connection) : Prop :=
  ∀ (h : Handler) (s : Shared), (c.parser.parse c.input).2.1 = .ok .complete →
    ∃ r, (c.parser.parse c.input).1.takeRequest = (some r, .start) ∧
      c.process h s =
        answer h { c with parser := .start, input := (c.parser.parse c.input).2.2 } s r

theorem answersComplete_of_run {uses : List ParserUse} (hc : c.parser = Parser.start.run uses) :
    c.AnswersComplete := by
  intro h s ho
  have hphased : (c.parser.parse c.input).1.record.Phased := by
    change (c.parser.use (.parse c.input)).record.Phased
    rw [Parser.record_use, hc, Parser.record_run]
    exact ((ParserRecord.phased_reset .fresh).run uses).use _
  have hdone : (c.parser.parse c.input).1.record.phase = .done := by
    have hcomplete := ParserRecord.complete_iff c.parser.record c.input.unread
    rw [Parser.read_record] at hcomplete
    exact hcomplete.mp ho
  obtain ⟨method, -, htake⟩ := hphased.takeRequest_eq hdone
  rw [Parser.takeRequest_record] at htake
  cases htaken : (c.parser.parse c.input).1.takeRequest with
  | mk request next =>
    rw [htaken] at htake
    obtain ⟨rfl, hfresh⟩ := Prod.mk.inj htake
    obtain rfl : next = .start := Parser.record_injective hfresh
    exact ⟨_, rfl, process_of_complete h s ho htaken⟩

inductive Reached : Connection → Prop
  | new (peer : String) : Reached (ofPeer peer)
  | read {c : Connection} (hc : Reached c) (s : Shared) (results : List ReadResult) :
    Reached (c.read s results).2.1
  | process {c : Connection} (hc : Reached c) (h : Handler) (s : Shared) :
    Reached (c.process h s).connection
  | write {c : Connection} (hc : Reached c) (h : Handler) (s : Shared)
    (results : List WriteResult) : Reached (c.write h s results).connection

theorem parser_read (c : Connection) (s : Shared) (results : List ReadResult) :
    (c.read s results).2.1.parser = c.parser := by
  unfold read
  split <;> rfl

theorem exists_uses_process (h : Handler) (c : Connection) (s : Shared) :
    ∃ uses, (c.process h s).connection.parser = c.parser.run uses := by
  cases ho : (c.parser.read c.input.unread).outcome with
  | error e =>
    rw [process_of_error h s ho]
    exact ⟨[.reset], rfl⟩
  | ok progress =>
    cases progress with
    | needMoreData =>
      rw [process_of_needMoreData h s ho]
      exact ⟨[.parse c.input], rfl⟩
    | complete =>
      refine ⟨[.parse c.input, .take], ?_⟩
      cases ht : (c.parser.read c.input.unread).parser.takeRequest with
      | mk request p =>
        have htaken : p = c.parser.run [.parse c.input, .take] := (congrArg Prod.snd ht).symm
        cases request with
        | none =>
          rw [process_of_unsupported h s ho ht]
          exact htaken
        | some r =>
          rw [process_of_complete h s ho ht]
          exact htaken

theorem exists_uses_afterFlush (h : Handler) (c : Connection) (s : Shared) :
    ∃ uses, (c.afterFlush h s).connection.parser = c.parser.run uses := by
  unfold afterFlush
  split
  · exact ⟨[], rfl⟩
  · dsimp only
    split
    · exact ⟨[.reset], rfl⟩
    · obtain ⟨uses, he⟩ := exists_uses_process h { c with parser := .start } s
      exact ⟨.reset :: uses, he⟩

theorem exists_uses_write (h : Handler) (c : Connection) (s : Shared) (results : List WriteResult) :
    ∃ uses, (c.write h s results).connection.parser = c.parser.run uses := by
  unfold write
  dsimp only
  split
  · exact ⟨[], rfl⟩
  · exact ⟨[], rfl⟩
  · exact exists_uses_afterFlush h { c with outgoing := (c.outgoing.flush results).1 } _

theorem Reached.exists_uses (hc : c.Reached) : ∃ uses, c.parser = Parser.start.run uses := by
  have hthen : ∀ {p q : Parser}, (∃ uses, p = Parser.start.run uses) → (∃ uses, q = p.run uses) →
      ∃ uses, q = Parser.start.run uses := by
    rintro _ _ ⟨uses, rfl⟩ ⟨more, rfl⟩
    exact ⟨uses ++ more, (Parser.start.run_append uses more).symm⟩
  induction hc with
  | new peer => exact ⟨[], rfl⟩
  | read _ s results ih => exact (parser_read _ s results).symm ▸ ih
  | process _ h s ih => exact hthen ih (exists_uses_process h _ s)
  | write _ h s results ih => exact hthen ih (exists_uses_write h _ s results)

end EventHttp.Connection

namespace EventHttp.ParserRecord

/-- However a parser is used, its phase tells what its fields hold, and a request can be taken off it
when it is done.  A connection only uses its parser, so it answers every reading that is complete. -/
theorem run_phased :
    (∀ uses, (fresh.run uses).Phased ∧ (fresh.run uses).Yields) ∧
    (∀ p : Parser, p.Recorded) ∧ (∀ uses, (Parser.start.run uses).record = fresh.run uses) ∧
    (∀ uses (c : Connection), c.parser = Parser.start.run uses → c.AnswersComplete) ∧
    ∀ c : Connection, c.Reached → ∃ uses, c.parser = Parser.start.run uses := by
  refine ⟨fun uses => ?_, Parser.recorded, Parser.start.record_run,
    fun _ _ hc => Connection.answersComplete_of_run hc, fun _ hc => hc.exists_uses⟩
  have hphased : (fresh.run uses).Phased := (phased_reset .fresh).run uses
  exact ⟨hphased, hphased.yields⟩

end EventHttp.ParserRecord
