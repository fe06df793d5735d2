import EventHttp.Proofs.Parser.Phases

/-! The two parsers find the same.  What there is to see of a `Parser` is such a record, with nothing
in the fields that its phase does not have; whatever it is used for, it stays the record of the
other, and each use gives the same. -/

namespace EventHttp

def ParserTurn.goOn : ParserTurn → ParserRecord × Except ParseError Progress × List UInt8
  | ⟨p, rest, some outcome⟩ => (p, outcome, rest)
  | ⟨p, rest, none⟩ => p.read rest

theorem ParserRecord.read_eq_goOn (p : ParserRecord) (input : List UInt8) :
    p.read input = (p.turn input).goOn := by
  rw [ParserRecord.read]
  cases p.turn input with
  | mk q rest outcome? => cases outcome? <;> rfl

def Parser.phase : Parser → ParserPhase
  | start => .line
  | headers .. => .headers
  | body .. => .body
  | done .. => .done

def Parser.record (p : Parser) : ParserRecord :=
  ⟨p.phase, p.methodToken, p.path, p.version, p.fields, p.content⟩

def Reading.record (r : Reading) : ParserRecord × Except ParseError Progress × List UInt8 :=
  (r.parser.record, r.outcome, r.rest)

namespace Parser

theorem read_record_body (l : RequestLine) (h : Headers) (input : List UInt8) :
    (body l h).record.read input = (readBody l h input).record := by
  rw [ParserRecord.read_eq_goOn]
  change ((body l h).record.takeBody input).goOn = _
  unfold ParserRecord.takeBody readBody
  cases hn : h.contentLength with
  | error e =>
    have hfields : (body l h).record.fields.contentLength = .error e := hn
    rw [hfields]
    rfl
  | ok n =>
    have hfields : (body l h).record.fields.contentLength = .ok n := hn
    rw [hfields]
    dsimp only
    split
    · rfl
    · exact ParserRecord.read_eq_goOn ..

theorem read_record_endHead (l : RequestLine) (h : Headers) (rest : List UInt8) :
    ((headers l h).record.endHead rest).goOn = (endHead l h rest).record := by
  have hmethod : (headers l h).record.method = l.method := rfl
  rw [ParserRecord.endHead, endHead, hmethod]
  cases hm : Method.ofToken? l.method with
  | none => rfl
  | some method =>
    cases method with
    | get => exact ParserRecord.read_eq_goOn ..
    | post => exact read_record_body l h rest

theorem read_record_headers (l : RequestLine) (h : Headers) (input : List UInt8) :
    (headers l h).record.read input = (readHeaders l h input).record := by
  rw [ParserRecord.read_eq_goOn]
  change ((headers l h).record.takeHeader input).goOn = _
  fun_induction readHeaders l h input with
  | case1 h input hs =>
    rw [ParserRecord.takeHeader, hs]
    rfl
  | case2 h input rest hs =>
    rw [ParserRecord.takeHeader, hs]
    exact read_record_endHead l h rest
  | case3 h input x xs rest hs e he =>
    rw [ParserRecord.takeHeader, hs]
    dsimp only
    rw [he]
    rfl
  | case4 h input x xs rest hs name value hf ih =>
    rw [ParserRecord.takeHeader, hs]
    dsimp only
    rw [hf]
    exact (ParserRecord.read_eq_goOn ..).trans ih

theorem read_record_start (input : List UInt8) :
    start.record.read input = (readLine input).record := by
  rw [ParserRecord.read_eq_goOn]
  change (start.record.takeLine input).goOn = _
  rw [ParserRecord.takeLine, readLine]
  cases hs : splitLine? input with
  | none => rfl
  | some found =>
    dsimp only
    cases hl : RequestLine.read found.1 with
    | error e => rfl
    | ok l => exact read_record_headers l .empty found.2

theorem read_record (p : Parser) (input : List UInt8) :
    p.record.read input = (p.read input).record := by
  cases p with
  | start => exact read_record_start input
  | headers l h => exact read_record_headers l h input
  | body l h => exact read_record_body l h input
  | done => exact ParserRecord.read_eq_goOn ..

theorem takeRequest_record (p : Parser) :
    p.record.takeRequest = (p.takeRequest.1, p.takeRequest.2.record) := by
  cases p with
  | done l h content =>
    have hphase : (done l h content).record.phase = .done := rfl
    have hmethod : (done l h content).record.method = l.method := rfl
    rw [ParserRecord.takeRequest, if_pos hphase, hmethod, takeRequest]
    cases Method.ofToken? l.method <;> rfl
  | start | headers | body => rfl

def ofRecord (p : ParserRecord) : Parser :=
  match p.phase with
  | .line => start
  | .headers => headers ⟨p.method, p.path, p.version⟩ p.fields
  | .body => body ⟨p.method, p.path, p.version⟩ p.fields
  | .done => done ⟨p.method, p.path, p.version⟩ p.fields p.content

theorem ofRecord_record (p : Parser) : ofRecord p.record = p := by
  cases p <;> rfl

theorem record_injective : Function.Injective record :=
  Function.LeftInverse.injective ofRecord_record

/-- Each use of a parser is the same use of its record, and gives the same. -/
structure Recorded (p : Parser) : Prop where
  parse : ∀ b, p.record.parse b = ((p.parse b).1.record, (p.parse b).2)
  take : p.record.takeRequest = (p.takeRequest.1, p.takeRequest.2.record)
  reset : p.record.reset = start.record

theorem recorded (p : Parser) : p.Recorded where
  parse b := by
    rw [ParserRecord.parse, read_record]
    rfl
  take := p.takeRequest_record
  reset := rfl

def use (p : Parser) : ParserUse → Parser
  | .parse input => (p.parse input).1
  | .take => p.takeRequest.2
  | .reset => start

def run (p : Parser) (uses : List ParserUse) : Parser :=
  uses.foldl use p

theorem run_append (p : Parser) (uses more : List ParserUse) :
    p.run (uses ++ more) = (p.run uses).run more :=
  List.foldl_append

theorem record_use (p : Parser) (u : ParserUse) : (p.use u).record = p.record.use u := by
  cases u with
  | parse input => exact (congrArg Prod.fst (p.recorded.parse input)).symm
  | take => exact (congrArg Prod.snd p.recorded.take).symm
  | reset => exact p.recorded.reset.symm

theorem record_run (p : Parser) (uses : List ParserUse) :
    (p.run uses).record = p.record.run uses := by
  induction uses generalizing p with
  | nil => rfl
  | cons u uses ih => exact (ih (p.use u)).trans (congrArg (·.run uses) (p.record_use u))

end Parser
end EventHttp
