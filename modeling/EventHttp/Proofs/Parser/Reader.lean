import EventHttp.Proofs.Buffer.ByteQueue
import EventHttp.Proofs.Parser.Grammar

/-! A parser with the buffer that it reads from, whatever is done to the two.  The lines of a head
that it accepts stand one behind the other where it has read, and go into its fields in that
order; a line that it does not accept is where it stops. -/

namespace EventHttp

structure Reader where
  parser : Parser
  buffer : Buffer

inductive ReaderMove where
  | buffer (op : BufferOp)
  | parse
  | take
  | reset
  deriving DecidableEq, Repr

namespace Reader

def start (capacity : Nat) : Reader :=
  ⟨.start, .ofCapacity capacity⟩

def parse (r : Reader) : Reader :=
  ⟨(r.parser.parse r.buffer).1, (r.parser.parse r.buffer).2.2⟩

def outcome (r : Reader) : Except ParseError Progress :=
  (r.parser.parse r.buffer).2.1

def step (r : Reader) : ReaderMove → Reader
  | .buffer op => { r with buffer := op.apply r.buffer }
  | .parse => r.parse
  | .take => { r with parser := r.parser.takeRequest.2 }
  | .reset => { r with parser := .start }

def run (r : Reader) (moves : List ReaderMove) : Reader :=
  moves.foldl step r

variable {r : Reader}

theorem tidy_parse (h : r.buffer.Tidy) : r.parse.buffer.Tidy :=
  h.retrieve _

theorem tidy_step (h : r.buffer.Tidy) (m : ReaderMove) : (r.step m).buffer.Tidy := by
  cases m with
  | buffer op => exact BufferOp.tidy_apply h op
  | parse => exact tidy_parse h
  | take => exact h
  | reset => exact h

theorem tidy_run (h : r.buffer.Tidy) (moves : List ReaderMove) : (r.run moves).buffer.Tidy := by
  induction moves generalizing r with
  | nil => exact h
  | cons m moves ih => exact ih (tidy_step h m)

theorem unread_parse (h : r.buffer.Tidy) :
    r.parse.buffer.unread = (r.parser.read r.buffer.unread).rest :=
  Parser.unread_parse r.parser h.toWellFormed

end Reader

def acceptedLines (input : List UInt8) : List String :=
  match _h : splitLine? input with
  | none => []
  | some (line, rest) =>
    match Utf8.decode? line with
    | none => []
    | some text => if ':' ∈ text then String.ofList text :: acceptedLines rest else []
termination_by input.length
decreasing_by exact Parser.length_splitLine?_lt _h

namespace RequestText

def linesBytes (lines : List String) : List UInt8 :=
  lines.flatMap fun line => bytesOf line ++ crlf

theorem linesBytes_cons (line : String) (lines : List String) (rest : List UInt8) :
    linesBytes (line :: lines) ++ rest = bytesOf line ++ crlf ++ (linesBytes lines ++ rest) := by
  simp [linesBytes]

end RequestText

open RequestText (HeaderLine linesBytes)

variable {input line rest : List UInt8}

theorem acceptedLines_of_none (h : splitLine? input = none) : acceptedLines input = [] := by
  rw [acceptedLines]
  split <;> simp_all

theorem acceptedLines_of_error (h : splitLine? input = some (line, rest)) {e : ParseError}
    (he : Headers.read line = .error e) : acceptedLines input = [] := by
  have hcolon (text : List Char) (ht : Utf8.decode? line = some text) : ':' ∉ text := by
    intro hmem
    have hline : line = bytesOf (String.ofList text) := by
      rw [bytesOf, String.toList_ofList]
      exact Utf8.eq_encode_of_decode? ht
    have hread : Headers.read (bytesOf (String.ofList text)) = .ok (Headers.fieldOf _) :=
      Headers.read_bytesOf (by simpa using hmem)
    rw [← hline, he] at hread
    cases hread
  rw [acceptedLines]
  split
  · rfl
  · rename_i line' rest' hsplit
    obtain ⟨rfl, rfl⟩ := Prod.mk.inj (Option.some.inj (h.symm.trans hsplit))
    split
    · rfl
    · rename_i text ht
      exact if_neg (hcolon text ht)

theorem acceptedLines_of_line {text : String} (h : splitLine? input = some (bytesOf text, rest))
    (hcolon : ':' ∈ text.toList) : acceptedLines input = text :: acceptedLines rest := by
  have hdecode : Utf8.decode? (bytesOf text) = some text.toList := Utf8.decode?_encode _
  rw [acceptedLines]
  split
  · rename_i hnone
    cases h.symm.trans hnone
  · rename_i line' rest' hsplit
    obtain ⟨rfl, rfl⟩ := Prod.mk.inj (Option.some.inj (h.symm.trans hsplit))
    rw [hdecode]
    simp [hcolon]

theorem exists_acceptedLines (input : List UInt8) :
    ∃ tail, input = linesBytes (acceptedLines input) ++ tail ∧
      (∀ line ∈ acceptedLines input, HeaderLine line) ∧ acceptedLines tail = [] := by
  induction hn : input.length using Nat.strongRecOn generalizing input with
  | ind n ih =>
    cases hs : splitLine? input with
    | none =>
      have hnil := acceptedLines_of_none hs
      exact ⟨input, by simp [hnil, linesBytes], by simp [hnil], hnil⟩
    | some p =>
      obtain ⟨line, rest⟩ := p
      cases hr : Headers.read line with
      | error e =>
        have hnil := acceptedLines_of_error hs hr
        exact ⟨input, by simp [hnil, linesBytes], by simp [hnil], hnil⟩
      | ok f =>
        obtain ⟨text, hcolon, rfl, -⟩ := Headers.read_eq_ok_iff.mp hr
        obtain ⟨hfree, hinput⟩ := eq_of_splitLine? hs
        obtain ⟨tail, hrest, hlines, htail⟩ :=
          ih rest.length (hn ▸ Parser.length_splitLine?_lt hs) rest rfl
        refine ⟨tail, ?_, ?_, htail⟩
        · rw [acceptedLines_of_line hs hcolon, RequestText.linesBytes_cons, ← hrest]
          exact hinput
        · rw [acceptedLines_of_line hs hcolon]
          exact List.forall_mem_cons.mpr ⟨⟨hfree, hcolon⟩, hlines⟩

theorem headerLine_of_mem_acceptedLines {text : String} (h : text ∈ acceptedLines input) :
    HeaderLine text := by
  obtain ⟨-, -, hlines, -⟩ := exists_acceptedLines input
  exact hlines text h

namespace Parser

variable {l : RequestLine}

theorem readHeaders_linesBytes {lines : List String} (hl : ∀ line ∈ lines, HeaderLine line)
    (h : Headers) (tail : List UInt8) :
    readHeaders l h (linesBytes lines ++ tail) =
      readHeaders l (h.putAll (lines.map Headers.fieldOf)) tail := by
  induction lines generalizing h with
  | nil => rfl
  | cons line lines ih =>
    obtain ⟨hline, hlines⟩ := List.forall_mem_cons.mp hl
    have hs := splitLine?_append_crlf hline.1 (linesBytes lines ++ tail)
    rw [RequestText.linesBytes_cons, readHeaders_of_line hs hline.bytes_ne_nil,
      Headers.read_bytesOf hline.2]
    exact ih hlines _

theorem readHeaders_eq (l : RequestLine) (h : Headers) (input : List UInt8) :
    ∃ tail, input = linesBytes (acceptedLines input) ++ tail ∧ acceptedLines tail = [] ∧
      readHeaders l h input =
        readHeaders l (h.putAll ((acceptedLines input).map Headers.fieldOf)) tail := by
  obtain ⟨tail, hinput, hlines, htail⟩ := exists_acceptedLines input
  have hread : readHeaders l h (linesBytes (acceptedLines input) ++ tail) = _ :=
    readHeaders_linesBytes hlines h tail
  rw [← hinput] at hread
  exact ⟨tail, hinput, htail, hread⟩

theorem readHeaders_cases (l : RequestLine) (h : Headers) (hn : acceptedLines input = []) :
    readHeaders l h input = (headers l h).waiting input ∨
      (∃ rest, splitLine? input = some ([], rest) ∧ readHeaders l h input = endHead l h rest) ∨
      ∃ line rest e, splitLine? input = some (line, rest) ∧ line ≠ [] ∧
        Headers.read line = .error e ∧
        readHeaders l h input = ⟨headers l h, .error e, input⟩ := by
  cases hs : splitLine? input with
  | none => exact Or.inl (readHeaders_of_none hs)
  | some p =>
    obtain ⟨line, rest⟩ := p
    by_cases hline : line = []
    · subst hline
      exact Or.inr (Or.inl ⟨rest, rfl, readHeaders_of_blank hs⟩)
    · cases hr : Headers.read line with
      | error e =>
        have hread : readHeaders l h input = _ := readHeaders_of_line hs hline
        rw [hr] at hread
        exact Or.inr (Or.inr ⟨line, rest, e, rfl, hline, hr, hread⟩)
      | ok f =>
        obtain ⟨text, hcolon, rfl, -⟩ := Headers.read_eq_ok_iff.mp hr
        cases hn.symm.trans (acceptedLines_of_line hs hcolon)

theorem readLine_cases (input : List UInt8) :
    (splitLine? input = none ∧ readLine input = start.waiting input) ∨
      (∃ first rest e, splitLine? input = some (first, rest) ∧ RequestLine.read first = .error e ∧
        readLine input = ⟨start, .error e, input⟩) ∨
      ∃ first rest l, splitLine? input = some (first, rest) ∧ RequestLine.read first = .ok l ∧
        readLine input = readHeaders l .empty rest := by
  cases hs : splitLine? input with
  | none => exact Or.inl ⟨rfl, by simp [readLine, hs, waiting]⟩
  | some p =>
    obtain ⟨first, rest⟩ := p
    cases hr : RequestLine.read first with
    | error e => exact Or.inr (Or.inl ⟨first, rest, e, rfl, hr, by simp [readLine, hs, hr]⟩)
    | ok l => exact Or.inr (Or.inr ⟨first, rest, l, rfl, hr, by simp [readLine, hs, hr]⟩)

/-- The lines of a head that a parser accepts as it reads `input`. -/
def accepts (p : Parser) (input : List UInt8) : List String :=
  match p with
  | .start =>
    match splitLine? input with
    | none => []
    | some (first, rest) =>
      match RequestLine.read first with
      | .error _ => []
      | .ok _ => acceptedLines rest
  | .headers .. => acceptedLines input
  | .body .. | .done .. => []

theorem headerLine_of_mem_accepts {p : Parser} {text : String} (h : text ∈ p.accepts input) :
    HeaderLine text := by
  unfold accepts at h
  split at h
  · split at h
    · cases h
    · split at h
      · cases h
      · exact headerLine_of_mem_acceptedLines h
  · exact headerLine_of_mem_acceptedLines h
  · cases h
  · cases h

theorem fields_readBody (l : RequestLine) (h : Headers) (input : List UInt8) :
    (readBody l h input).parser.fields = h := by
  unfold readBody
  split
  · rfl
  · split <;> rfl

theorem fields_endHead (l : RequestLine) (h : Headers) (input : List UInt8) :
    (endHead l h input).parser.fields = h := by
  unfold endHead
  split
  · rfl
  · rfl
  · exact fields_readBody l h input

theorem fields_readHeaders (l : RequestLine) (h : Headers) (input : List UInt8) :
    (readHeaders l h input).parser.fields =
      h.putAll ((acceptedLines input).map Headers.fieldOf) := by
  obtain ⟨tail, -, htail, hread⟩ := readHeaders_eq l h input
  rw [hread]
  rcases readHeaders_cases l (h.putAll _) htail with hend | ⟨rest, -, hend⟩ | ⟨_, _, _, -, -, -, hend⟩
  · rw [hend]
    rfl
  · rw [hend]
    exact fields_endHead l _ rest
  · rw [hend]
    rfl

theorem fields_read (p : Parser) (input : List UInt8) :
    (p.read input).parser.fields = p.fields.putAll ((p.accepts input).map Headers.fieldOf) := by
  cases p with
  | start =>
    rw [read]
    rcases readLine_cases input with ⟨hs, hread⟩ | ⟨_, _, e, hs, hr, hread⟩ | ⟨_, rest, l, hs, hr, hread⟩
    · simp [hread, accepts, hs, waiting, Headers.putAll]
    · simp [hread, accepts, hs, hr, Headers.putAll]
    · have haccepts : accepts start input = acceptedLines rest := by simp [accepts, hs, hr]
      rw [hread, haccepts]
      exact fields_readHeaders l .empty rest
  | headers l h => exact fields_readHeaders l h input
  | body l h => exact fields_readBody l h input
  | done l h content => rfl

def Framed : Parser → Prop
  | .start | .headers .. => True
  | .body l _ => Method.ofToken? l.method = some .post
  | .done l h content =>
    (Method.ofToken? l.method = some .get ∧ content = []) ∨
      (Method.ofToken? l.method = some .post ∧ h.contentLength = .ok content.length)

theorem framed_readBody {h : Headers} (hm : Method.ofToken? l.method = some .post)
    (input : List UInt8) : (readBody l h input).parser.Framed := by
  unfold readBody
  split
  · exact hm
  · rename_i n hn
    split
    · exact hm
    · rename_i hlength
      refine Or.inr ⟨hm, ?_⟩
      rw [List.length_take_of_le (Nat.le_of_not_lt hlength)]
      exact hn

theorem framed_endHead (l : RequestLine) (h : Headers) (input : List UInt8) :
    (endHead l h input).parser.Framed := by
  unfold endHead
  split
  · trivial
  · rename_i hm
    exact Or.inl ⟨hm, rfl⟩
  · rename_i hm
    exact framed_readBody hm input

theorem framed_readHeaders (l : RequestLine) (h : Headers) (input : List UInt8) :
    (readHeaders l h input).parser.Framed := by
  obtain ⟨tail, -, htail, hread⟩ := readHeaders_eq l h input
  rw [hread]
  rcases readHeaders_cases l (h.putAll _) htail with hend | ⟨rest, -, hend⟩ | ⟨_, _, _, -, -, -, hend⟩
  · rw [hend]
    trivial
  · rw [hend]
    exact framed_endHead l _ rest
  · rw [hend]
    trivial

theorem Framed.read {p : Parser} (hp : p.Framed) (input : List UInt8) :
    (p.read input).parser.Framed := by
  cases p with
  | start =>
    rw [Parser.read]
    rcases readLine_cases input with ⟨-, hread⟩ | ⟨_, _, e, -, -, hread⟩ | ⟨_, rest, l, -, -, hread⟩
    · rw [hread]
      trivial
    · rw [hread]
      trivial
    · rw [hread]
      exact framed_readHeaders l .empty rest
  | headers l h => exact framed_readHeaders l h input
  | body l h => exact framed_readBody hp input
  | done l h content => exact hp

theorem takeRequest_cases (p : Parser) :
    (∃ l h content method, p = .done l h content ∧ Method.ofToken? l.method = some method ∧
      p.takeRequest = (some ⟨method, l.path, l.version, h, content⟩, .start)) ∨
      p.takeRequest = (none, p) := by
  cases p with
  | done l h content =>
    cases hm : Method.ofToken? l.method with
    | none => exact Or.inr (by simp [takeRequest, hm])
    | some method => exact Or.inl ⟨l, h, content, method, rfl, hm, by simp [takeRequest, hm]⟩
  | _ => exact Or.inr rfl

end Parser
end EventHttp
