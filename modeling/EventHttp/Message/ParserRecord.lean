import EventHttp.Message.Parser

/-! The parser as a record: a phase, and fields beside it that stay until something else is written
over them.  Nothing in the record ties the fields to the phase; its loop does.  `Parser` has in each
phase only the fields that mean something there. -/

namespace EventHttp

inductive ParserPhase where
  | line
  | headers
  | body
  | done
  deriving DecidableEq, Repr

structure ParserRecord where
  phase : ParserPhase
  method : String
  path : String
  version : String
  fields : Headers
  content : List UInt8
  deriving DecidableEq, Repr

/-- A turn of the parsing loop: the parser after it, the bytes it left and, in the last turn, what
was found. -/
structure ParserTurn where
  parser : ParserRecord
  rest : List UInt8
  outcome? : Option (Except ParseError Progress)

def ParserPhase.toCome : ParserPhase → Nat
  | line => 3
  | headers => 2
  | body => 1
  | done => 0

namespace ParserRecord

def fresh : ParserRecord :=
  ⟨.line, "", "", "", .empty, []⟩

def reset (p : ParserRecord) : ParserRecord :=
  { p with phase := .line, method := "", path := "", version := "", fields := .empty, content := [] }

def takeLine (p : ParserRecord) (input : List UInt8) : ParserTurn :=
  match splitLine? input with
  | none => ⟨p, input, some (.ok .needMoreData)⟩
  | some (l, rest) =>
    match RequestLine.read l with
    | .error e => ⟨p, input, some (.error e)⟩
    | .ok line =>
      ⟨{ p with phase := .headers, method := line.method, path := line.path,
                version := line.version }, rest, none⟩

def endHead (p : ParserRecord) (rest : List UInt8) : ParserTurn :=
  match Method.ofToken? p.method with
  | none => ⟨p, rest, some (.error (.unsupportedMethod p.method))⟩
  | some .get => ⟨{ p with phase := .done }, rest, none⟩
  | some .post => ⟨{ p with phase := .body }, rest, none⟩

def takeHeader (p : ParserRecord) (input : List UInt8) : ParserTurn :=
  match splitLine? input with
  | none => ⟨p, input, some (.ok .needMoreData)⟩
  | some ([], rest) => p.endHead rest
  | some (x :: xs, rest) =>
    match Headers.read (x :: xs) with
    | .error e => ⟨p, input, some (.error e)⟩
    | .ok (name, value) => ⟨{ p with fields := p.fields.put name value }, rest, none⟩

def takeBody (p : ParserRecord) (input : List UInt8) : ParserTurn :=
  match p.fields.contentLength with
  | .error e => ⟨p, input, some (.error e)⟩
  | .ok n =>
    if input.length < n then ⟨p, input, some (.ok .needMoreData)⟩
    else ⟨{ p with phase := .done, content := input.take n }, input.drop n, none⟩

def turn (p : ParserRecord) (input : List UInt8) : ParserTurn :=
  match p.phase with
  | .line => p.takeLine input
  | .headers => p.takeHeader input
  | .body => p.takeBody input
  | .done => ⟨p, input, some (.ok .complete)⟩

inductive Advances (p : ParserRecord) (input : List UInt8) : ParserRecord → List UInt8 → Prop
  | line {text rest : List UInt8} {l : RequestLine} (hp : p.phase = .line)
    (hs : splitLine? input = some (text, rest)) (hl : RequestLine.read text = .ok l) :
    Advances p input
      { p with phase := .headers, method := l.method, path := l.path, version := l.version } rest
  | header {text rest : List UInt8} {name value : String} (hp : p.phase = .headers)
    (hs : splitLine? input = some (text, rest)) (hf : Headers.read text = .ok (name, value)) :
    Advances p input { p with fields := p.fields.put name value } rest
  | get {rest : List UInt8} (hp : p.phase = .headers) (hs : splitLine? input = some ([], rest))
    (hm : Method.ofToken? p.method = some .get) : Advances p input { p with phase := .done } rest
  | post {rest : List UInt8} (hp : p.phase = .headers) (hs : splitLine? input = some ([], rest))
    (hm : Method.ofToken? p.method = some .post) : Advances p input { p with phase := .body } rest
  | body {n : Nat} (hp : p.phase = .body) (hn : p.fields.contentLength = .ok n)
    (hle : n ≤ input.length) :
    Advances p input { p with phase := .done, content := input.take n } (input.drop n)

/-- What a turn may come to: it goes on, or it finds something and leaves the parser as it was. -/
inductive TurnsTo (p : ParserRecord) (input : List UInt8) : ParserTurn → Prop
  | advances {q : ParserRecord} {rest : List UInt8} (ha : p.Advances input q rest) :
    TurnsTo p input ⟨q, rest, none⟩
  | finds (rest : List UInt8) {outcome : Except ParseError Progress}
    (hd : outcome = .ok .complete ↔ p.phase = .done) : TurnsTo p input ⟨p, rest, some outcome⟩

variable {p q : ParserRecord} {input rest : List UInt8}

theorem TurnsTo.stops {outcome : Except ParseError Progress} (hp : p.phase ≠ .done)
    (ho : outcome ≠ .ok .complete) : p.TurnsTo input ⟨p, rest, some outcome⟩ :=
  .finds rest (iff_of_false ho hp)

theorem turnsTo_takeLine (hp : p.phase = .line) : p.TurnsTo input (p.takeLine input) := by
  have hd : p.phase ≠ .done := hp ▸ nofun
  unfold takeLine
  split
  · exact .stops hd nofun
  · split
    · exact .stops hd nofun
    · exact .advances (.line hp ‹_› ‹_›)

theorem turnsTo_endHead (hp : p.phase = .headers) (hs : splitLine? input = some ([], rest)) :
    p.TurnsTo input (p.endHead rest) := by
  unfold endHead
  split
  · exact .stops (hp ▸ nofun) nofun
  · exact .advances (.get hp hs ‹_›)
  · exact .advances (.post hp hs ‹_›)

theorem turnsTo_takeHeader (hp : p.phase = .headers) : p.TurnsTo input (p.takeHeader input) := by
  have hd : p.phase ≠ .done := hp ▸ nofun
  unfold takeHeader
  cases hs : splitLine? input with
  | none => exact .stops hd nofun
  | some found =>
    obtain ⟨text, rest⟩ := found
    cases text with
    | nil => exact turnsTo_endHead hp hs
    | cons x xs =>
      dsimp only
      cases hf : Headers.read (x :: xs) with
      | error e => exact .stops hd nofun
      | ok field => exact .advances (.header hp hs hf)

theorem turnsTo_takeBody (hp : p.phase = .body) : p.TurnsTo input (p.takeBody input) := by
  have hd : p.phase ≠ .done := hp ▸ nofun
  unfold takeBody
  split
  · exact .stops hd nofun
  · split
    · exact .stops hd nofun
    · exact .advances (.body hp ‹_› (Nat.le_of_not_lt ‹_›))

theorem turnsTo_turn (p : ParserRecord) (input : List UInt8) : p.TurnsTo input (p.turn input) := by
  unfold turn
  split
  · exact turnsTo_takeLine ‹_›
  · exact turnsTo_takeHeader ‹_›
  · exact turnsTo_takeBody ‹_›
  · exact .finds input (iff_of_true rfl ‹_›)

theorem advances_of_turn (hn : (p.turn input).outcome? = none) :
    p.Advances input (p.turn input).parser (p.turn input).rest := by
  have hto := turnsTo_turn p input
  generalize p.turn input = t at hn hto
  cases hto with
  | advances ha => exact ha
  | finds => cases hn

theorem parser_of_turn {outcome : Except ParseError Progress}
    (ho : (p.turn input).outcome? = some outcome) :
    (p.turn input).parser = p ∧ (outcome = .ok .complete ↔ p.phase = .done) := by
  have hto := turnsTo_turn p input
  generalize p.turn input = t at ho hto
  cases hto with
  | advances => cases ho
  | finds _ hd => exact ⟨rfl, Option.some.inj ho ▸ hd⟩

def toDo (p : ParserRecord) (input : List UInt8) : Nat :=
  p.phase.toCome + input.length

theorem Advances.toDo_lt (ha : p.Advances input q rest) : q.toDo rest < p.toDo input := by
  unfold toDo
  cases ha with
  | line hp hs | get hp hs | post hp hs =>
    have hlt := Parser.length_splitLine?_lt hs
    rw [hp]
    simp only [ParserPhase.toCome]
    omega
  | header _ hs => exact Nat.add_lt_add_left (Parser.length_splitLine?_lt hs) _
  | body hp =>
    rw [hp, List.length_drop]
    simp only [ParserPhase.toCome]
    omega

def read (p : ParserRecord) (input : List UInt8) :
    ParserRecord × Except ParseError Progress × List UInt8 :=
  match _h : (p.turn input).outcome? with
  | some outcome => ((p.turn input).parser, outcome, (p.turn input).rest)
  | none => (p.turn input).parser.read (p.turn input).rest
termination_by p.toDo input
decreasing_by exact (advances_of_turn _h).toDo_lt

def parse (p : ParserRecord) (b : Buffer) : ParserRecord × Except ParseError Progress × Buffer :=
  let (q, outcome, rest) := p.read b.unread
  (q, outcome, b.retrieve (b.readable - rest.length))

def takeRequest (p : ParserRecord) : Option Request × ParserRecord :=
  if p.phase = .done then
    match Method.ofToken? p.method with
    | none => (none, p)
    | some method => (some ⟨method, p.path, p.version, p.fields, p.content⟩, p.reset)
  else (none, p)

end ParserRecord
end EventHttp
