import EventHttp.Proofs.Parser.Reader

/-! What a parser has found stays so.  A parser that wants more data, or has a request, finds the
same when it looks again; one that has refused a request refuses it whatever comes after, and one
that has refused its method never has a request.  A line that is refused leaves no trace. -/

namespace EventHttp

namespace ParseError

def isOfLine : ParseError → Bool
  | malformedRequestLine | malformedHeader | invalidUtf8 => true
  | unsupportedMethod _ | missingContentLength | invalidContentLength _ => false

def isOfMethod : ParseError → Bool
  | unsupportedMethod _ => true
  | malformedRequestLine | malformedHeader | invalidUtf8 | missingContentLength
  | invalidContentLength _ => false

theorem isOfMethod_of_isOfLine {e : ParseError} (he : e.isOfLine = true) : e.isOfMethod = false := by
  cases e <;> simp_all [isOfLine, isOfMethod]

end ParseError

theorem RequestLine.isOfLine_of_read {line : List UInt8} {e : ParseError}
    (he : read line = .error e) : e.isOfLine = true := by
  unfold read at he
  split at he
  · obtain rfl := Except.error.inj he
    rfl
  · split at he
    · obtain rfl := Except.error.inj he
      rfl
    · cases he

theorem Headers.isOfLine_of_read {line : List UInt8} {e : ParseError}
    (he : read line = .error e) : e.isOfLine = true := by
  unfold read at he
  split at he
  · obtain rfl := Except.error.inj he
    rfl
  · split at he
    · obtain rfl := Except.error.inj he
      rfl
    · cases he
    · cases he

theorem Headers.error_contentLength {h : Headers} {e : ParseError}
    (he : h.contentLength = .error e) : e.isOfLine = false ∧ e.isOfMethod = false := by
  unfold contentLength at he
  split at he
  · obtain rfl := Except.error.inj he
    exact ⟨rfl, rfl⟩
  · split at he
    · obtain rfl := Except.error.inj he
      exact ⟨rfl, rfl⟩
    · cases he

open RequestText (linesBytes)

namespace Parser

variable {p : Parser} {l : RequestLine} {h : Headers} {input rest : List UInt8} {e : ParseError}

def Refuses (p : Parser) (input : List UInt8) (e : ParseError) : Prop :=
  p.read input = ⟨p, .error e, input⟩

theorem Refuses.append (hp : p.Refuses input e) (more : List UInt8) :
    p.Refuses (input ++ more) e := by
  have hmore := read_append p input more
  rw [hp, Reading.resume_of_decided (by simp)] at hmore
  exact hmore

inductive Verdict : Reading → Prop
  | waits (p : Parser) (input : List UInt8) : Verdict (p.waiting input)
  | completes (l : RequestLine) (h : Headers) (content rest : List UInt8) :
    Verdict ⟨.done l h content, .ok .complete, rest⟩
  | refuses {p : Parser} {input : List UInt8} {e : ParseError} (hp : p.Refuses input e)
    (he : e.isOfMethod = false) : Verdict ⟨p, .error e, input⟩
  | unserved {l : RequestLine} (hm : Method.ofToken? l.method = none) (h : Headers)
    (rest : List UInt8) : Verdict ⟨.headers l h, .error (.unsupportedMethod l.method), rest⟩

theorem verdict_readBody (l : RequestLine) (h : Headers) (input : List UInt8) :
    Verdict (readBody l h input) := by
  cases hlength : h.contentLength with
  | error e =>
    have hread : readBody l h input = ⟨.body l h, .error e, input⟩ := by simp [readBody, hlength]
    rw [hread]
    exact .refuses hread (Headers.error_contentLength hlength).2
  | ok n =>
    simp only [readBody, hlength]
    split
    · exact .waits (.body l h) input
    · exact .completes l h _ _

theorem verdict_endHead (l : RequestLine) (h : Headers) (input : List UInt8) :
    Verdict (endHead l h input) := by
  unfold endHead
  split
  · rename_i hm
    exact .unserved hm h input
  · exact .completes l h [] input
  · exact verdict_readBody l h input

theorem verdict_readHeaders (l : RequestLine) (h : Headers) (input : List UInt8) :
    Verdict (readHeaders l h input) := by
  obtain ⟨tail, -, htail, hread⟩ := readHeaders_eq l h input
  rw [hread]
  rcases readHeaders_cases l (h.putAll _) htail with hend | ⟨rest, -, hend⟩ | ⟨_, _, _, -, -, hr, hend⟩
  · rw [hend]
    exact .waits _ tail
  · rw [hend]
    exact verdict_endHead l _ rest
  · rw [hend]
    exact .refuses hend (ParseError.isOfMethod_of_isOfLine (Headers.isOfLine_of_read hr))

theorem verdict_read (p : Parser) (input : List UInt8) : Verdict (p.read input) := by
  cases p with
  | start =>
    rw [read]
    rcases readLine_cases input with ⟨-, hread⟩ | ⟨_, _, _, -, hr, hread⟩ | ⟨_, rest, l, -, -, hread⟩
    · rw [hread]
      exact .waits .start input
    · rw [hread]
      exact .refuses hread (ParseError.isOfMethod_of_isOfLine (RequestLine.isOfLine_of_read hr))
    · rw [hread]
      exact verdict_readHeaders l .empty rest
  | headers l h => exact verdict_readHeaders l h input
  | body l h => exact verdict_readBody l h input
  | done l h content => exact .completes l h content input

theorem read_rest_of_ok {progress : Progress} (ho : (p.read input).outcome = .ok progress) :
    (p.read input).parser.read (p.read input).rest = p.read input := by
  cases progress with
  | needMoreData => exact read_rest_of_needMoreData ho
  | complete =>
    cases hv : p.read input with
    | mk q outcome rest =>
      have hverdict := verdict_read p input
      rw [hv] at ho hverdict
      cases hverdict with
      | completes l h content rest => rfl
      | waits | refuses | unserved => cases ho

theorem refuses_of_error (ho : (p.read input).outcome = .error e) (he : e.isOfMethod = false) :
    (p.read input).parser.Refuses (p.read input).rest e := by
  cases hv : p.read input with
  | mk q outcome rest =>
    have hverdict := verdict_read p input
    rw [hv] at ho hverdict
    cases hverdict with
    | waits | completes => cases ho
    | refuses hp _ =>
      obtain rfl := Except.error.inj ho
      exact hp
    | unserved =>
      obtain rfl := Except.error.inj ho
      cases he

def Unserved : Parser → Prop
  | .headers l _ => Method.ofToken? l.method = none
  | .start | .body .. | .done .. => False

theorem unserved_of_error (ho : (p.read input).outcome = .error e) (he : e.isOfMethod = true) :
    (p.read input).parser.Unserved := by
  cases hv : p.read input with
  | mk q outcome rest =>
    have hverdict := verdict_read p input
    rw [hv] at ho hverdict
    cases hverdict with
    | waits | completes => cases ho
    | refuses _ hnot =>
      obtain rfl := Except.error.inj ho
      cases he.symm.trans hnot
    | unserved hm => exact hm

theorem Unserved.read (hp : p.Unserved) (input : List UInt8) :
    (p.read input).parser.Unserved ∧ (p.read input).outcome ≠ .ok .complete := by
  cases p with
  | headers l h =>
    have hm : Method.ofToken? l.method = none := hp
    obtain ⟨tail, -, htail, hread⟩ := readHeaders_eq l h input
    rw [Parser.read, hread]
    rcases readHeaders_cases l (h.putAll _) htail with hend | ⟨rest, -, hend⟩ | ⟨_, _, _, -, -, -, hend⟩
    · rw [hend]
      exact ⟨hm, by rintro ⟨⟩⟩
    · rw [hend, endHead, hm]
      exact ⟨hm, by rintro ⟨⟩⟩
    · rw [hend]
      exact ⟨hm, by rintro ⟨⟩⟩
  | start | body | done => exact hp.elim

inductive RefusesLine : Parser → List UInt8 → ParseError → Prop
  | first {line : List UInt8} {e : ParseError} (hr : RequestLine.read line = .error e) :
    RefusesLine .start line e
  | field (l : RequestLine) (h : Headers) {line : List UInt8} {e : ParseError} (hl : line ≠ [])
    (hr : Headers.read line = .error e) : RefusesLine (.headers l h) line e

structure StopsAt (p : Parser) (input before line after : List UInt8) (e : ParseError) : Prop where
  bytes : input = before ++ (line ++ crlf ++ after)
  whole : ¬ crlf <:+: line
  parser : p.read before = (p.read input).parser.waiting []
  rest : (p.read input).rest = line ++ crlf ++ after
  refused : (p.read input).parser.RefusesLine line e

theorem not_isOfLine_of_readBody (he : (readBody l h input).outcome = .error e) :
    e.isOfLine = false := by
  cases hlength : h.contentLength with
  | error e' =>
    simp only [readBody, hlength] at he
    obtain rfl := Except.error.inj he
    exact (Headers.error_contentLength hlength).1
  | ok n =>
    simp only [readBody, hlength] at he
    split at he <;> cases he

theorem not_isOfLine_of_endHead (he : (endHead l h input).outcome = .error e) :
    e.isOfLine = false := by
  unfold endHead at he
  split at he
  · obtain rfl := Except.error.inj he
    rfl
  · cases he
  · exact not_isOfLine_of_readBody he

theorem readHeaders_nil (l : RequestLine) (h : Headers) :
    readHeaders l h [] = (headers l h).waiting [] :=
  readHeaders_of_none rfl

theorem stopsAt_headers (he : ((headers l h).read input).outcome = .error e)
    (hline : e.isOfLine = true) :
    ∃ before line after, (headers l h).StopsAt input before line after e := by
  obtain ⟨tail, hinput, htail, hread⟩ := readHeaders_eq l h input
  have hbefore : readHeaders l h (linesBytes (acceptedLines input) ++ []) = _ :=
    readHeaders_linesBytes (fun _ => headerLine_of_mem_acceptedLines) h []
  rw [List.append_nil, readHeaders_nil] at hbefore
  rw [read, hread] at he
  rcases readHeaders_cases l (h.putAll _) htail with
    hend | ⟨rest, -, hend⟩ | ⟨line, after, e', hs, hne, hr, hend⟩
  · rw [hend] at he
    cases he
  · rw [hend] at he
    cases hline.symm.trans (not_isOfLine_of_endHead he)
  · rw [hend] at he
    obtain rfl := Except.error.inj he
    obtain ⟨hwhole, rfl⟩ := eq_of_splitLine? hs
    have hstop : (headers l h).read input = _ := hread.trans hend
    refine ⟨_, line, after, hinput, hwhole, ?_, ?_, ?_⟩
    · rw [hstop]
      exact hbefore
    · rw [hstop]
    · rw [hstop]
      exact .field l _ hne hr

theorem exists_stopsAt (he : (p.read input).outcome = .error e) (hline : e.isOfLine = true) :
    ∃ before line after, p.StopsAt input before line after e := by
  cases p with
  | start =>
    rcases readLine_cases input with
      ⟨-, hread⟩ | ⟨line, after, e', hs, hr, hread⟩ | ⟨first, rest, l, hs, hr, hread⟩
    · rw [read, hread] at he
      cases he
    · have hstop : start.read input = _ := hread
      rw [hstop] at he
      obtain rfl := Except.error.inj he
      obtain ⟨hwhole, hinput⟩ := eq_of_splitLine? hs
      refine ⟨[], line, after, hinput, hwhole, ?_, ?_, ?_⟩
      · rw [hstop]
        rfl
      · rw [hstop]
        exact hinput
      · rw [hstop]
        exact .first hr
    · -- behind a first line that is taken, the failure is one of the head
      have hstop : start.read input = (headers l .empty).read rest := hread
      rw [hstop] at he
      obtain ⟨before, line, after, hstops⟩ := stopsAt_headers he hline
      obtain ⟨hfree, hinput⟩ := eq_of_splitLine? hs
      have hfirst : start.read (first ++ crlf ++ before) = (headers l .empty).read before := by
        have hsplit := splitLine?_append_crlf hfree before
        simp only [read, readLine, hsplit, hr]
      refine ⟨first ++ crlf ++ before, line, after, ?_, hstops.whole, ?_, ?_, ?_⟩
      · rw [List.append_assoc (first ++ crlf), ← hstops.bytes]
        exact hinput
      · rw [hstop, hfirst]
        exact hstops.parser
      · rw [hstop]
        exact hstops.rest
      · rw [hstop]
        exact hstops.refused
  | headers l h => exact stopsAt_headers he hline
  | body l h => cases hline.symm.trans (not_isOfLine_of_readBody he)
  | done l h content => cases he

theorem requestLine?_readBody (l : RequestLine) (h : Headers) (input : List UInt8) :
    (readBody l h input).parser.requestLine? = some l := by
  unfold readBody
  split
  · rfl
  · split <;> rfl

theorem requestLine?_readHeaders (l : RequestLine) (h : Headers) (input : List UInt8) :
    (readHeaders l h input).parser.requestLine? = some l := by
  obtain ⟨tail, -, htail, hread⟩ := readHeaders_eq l h input
  rw [hread]
  rcases readHeaders_cases l (h.putAll _) htail with hend | ⟨rest, -, hend⟩ | ⟨_, _, _, -, -, -, hend⟩
  · rw [hend]
    rfl
  · rw [hend, endHead]
    split
    · rfl
    · rfl
    · exact requestLine?_readBody l _ rest
  · rw [hend]
    rfl

inductive TakesLine (p : Parser) (input : List UInt8) : Option RequestLine → Prop
  | kept : TakesLine p input p.requestLine?
  | taken {first rest : List UInt8} {l : RequestLine} (hp : p = .start)
    (hs : splitLine? input = some (first, rest)) (hr : RequestLine.read first = .ok l) :
    TakesLine p input (some l)

theorem takesLine_read (p : Parser) (input : List UInt8) :
    p.TakesLine input (p.read input).parser.requestLine? := by
  cases p with
  | start =>
    rw [read]
    rcases readLine_cases input with
      ⟨-, hread⟩ | ⟨_, _, e, -, -, hread⟩ | ⟨first, rest, l, hs, hr, hread⟩
    · rw [hread]
      exact .kept
    · rw [hread]
      exact .kept
    · rw [hread, requestLine?_readHeaders]
      exact .taken rfl hs hr
  | headers l h =>
    rw [read, requestLine?_readHeaders]
    exact .kept
  | body l h =>
    rw [read, requestLine?_readBody]
    exact .kept
  | done l h content => exact .kept

end Parser

namespace ReaderMove

def goesOn : ReaderMove → Bool
  | .buffer (.append _) | .buffer (.fill _) | .parse => true
  | .buffer (.retrieve _) | .buffer .retrieveAll | .buffer .clear | .take | .reset => false

def arriving : ReaderMove → List UInt8
  | .buffer (.append data) => data
  | .buffer (.fill results) => ReadResult.taken results
  | _ => []

end ReaderMove

namespace Reader

variable {r : Reader} {e : ParseError}

def outcomes (r : Reader) : List ReaderMove → List (Except ParseError Progress)
  | [] => []
  | .parse :: moves => r.outcome :: r.parse.outcomes moves
  | m :: moves => (r.step m).outcomes moves

/-- A failure that lasts: the same is found again, and nothing but the bytes behind it changes. -/
structure Lasts (r : Reader) (e : ParseError) (moves : List ReaderMove) : Prop where
  outcomes : ∀ o ∈ r.outcomes moves, o = .error e
  parser : (r.run moves).parser = r.parser
  unread : (r.run moves).buffer.unread = r.buffer.unread ++ moves.flatMap ReaderMove.arriving

structure Stuck (r : Reader) (e : ParseError) : Prop where
  tidy : r.buffer.Tidy
  refuses : r.parser.Refuses r.buffer.unread e

theorem parse_eq (hb : r.buffer.Tidy)
    (hr : r.parser.read r.buffer.unread = ⟨r.parser, r.outcome, r.buffer.unread⟩) :
    r.parse = r := by
  have hrest : r.buffer.readable - (r.parser.read r.buffer.unread).rest.length = 0 := by
    rw [hr, Buffer.length_unread hb.toWellFormed, Nat.sub_self]
  rw [parse, Parser.parse]
  dsimp only
  rw [hrest, hb.retrieve_zero, hr]

theorem Stuck.outcome (h : r.Stuck e) : r.outcome = .error e :=
  congrArg Reading.outcome h.refuses

theorem Stuck.parse (h : r.Stuck e) : r.parse = r :=
  parse_eq h.tidy (h.outcome ▸ h.refuses)

theorem stuck_arrive (h : r.Stuck e) {op : BufferOp} (hop : (ReaderMove.buffer op).goesOn = true) :
    (r.step (.buffer op)).Stuck e ∧ (r.step (.buffer op)).buffer.unread =
      r.buffer.unread ++ (ReaderMove.buffer op).arriving := by
  have hunread := BufferOp.unread_apply h.tidy.toWellFormed op
  cases op with
  | append data | fill results =>
    refine ⟨⟨tidy_step h.tidy _, ?_⟩, hunread⟩
    rw [step, hunread]
    exact h.refuses.append _
  | retrieve | retrieveAll | clear => cases hop

theorem Stuck.lasts (h : r.Stuck e) {moves : List ReaderMove}
    (hm : ∀ m ∈ moves, m.goesOn = true) : r.Lasts e moves := by
  induction moves generalizing r with
  | nil => exact ⟨nofun, rfl, (List.append_nil _).symm⟩
  | cons m moves ih =>
    obtain ⟨hgoes, hmoves⟩ := List.forall_mem_cons.mp hm
    cases m with
    | parse =>
      obtain ⟨houtcomes, hparser, hunread⟩ := ih h hmoves
      have hrun : r.run (.parse :: moves) = r.run moves := congrArg (run · moves) h.parse
      refine ⟨?_, hrun ▸ hparser, hrun ▸ hunread⟩
      rw [outcomes, h.parse]
      exact List.forall_mem_cons.mpr ⟨h.outcome, houtcomes⟩
    | buffer op =>
      obtain ⟨hstuck, harrived⟩ := stuck_arrive h hgoes
      obtain ⟨houtcomes, hparser, hunread⟩ := ih hstuck hmoves
      refine ⟨houtcomes, hparser, hunread.trans ?_⟩
      rw [harrived, List.flatMap_cons, List.append_assoc]
    | take | reset => cases hgoes

theorem stuck_parse (hb : r.buffer.Tidy) (ho : r.outcome = .error e) (he : e.isOfMethod = false) :
    r.parse.Stuck e where
  tidy := tidy_parse hb
  refuses := unread_parse hb ▸ Parser.refuses_of_error ho he

theorem ne_complete_of_unserved (h : r.parser.Unserved) {moves : List ReaderMove}
    (hm : ∀ m ∈ moves, m.goesOn = true) : ∀ o ∈ r.outcomes moves, o ≠ .ok .complete := by
  induction moves generalizing r with
  | nil => exact nofun
  | cons m moves ih =>
    obtain ⟨hgoes, hmoves⟩ := List.forall_mem_cons.mp hm
    cases m with
    | parse =>
      obtain ⟨hnext, hne⟩ := h.read r.buffer.unread
      exact List.forall_mem_cons.mpr ⟨hne, ih hnext hmoves⟩
    | buffer op => exact ih h hmoves
    | take | reset => cases hgoes

theorem parse_parse_of_ok (hb : r.buffer.Tidy) {progress : Progress}
    (ho : r.outcome = .ok progress) : r.parse.parse = r.parse ∧ r.parse.outcome = .ok progress := by
  have hagain := Parser.read_rest_of_ok ho
  rw [← unread_parse hb] at hagain
  have houtcome : r.parse.outcome = .ok progress := (congrArg Reading.outcome hagain).trans ho
  refine ⟨parse_eq (tidy_parse hb) (hagain.trans ?_), houtcome⟩
  rw [houtcome, ← ho, unread_parse hb]
  rfl

/-- What parsing has found stays so, while no more is done than append and parse. -/
structure Settles (r : Reader) : Prop where
  again : ∀ progress, r.outcome = .ok progress →
    r.parse.parse = r.parse ∧ r.parse.outcome = .ok progress
  refused : ∀ e, r.outcome = .error e → e.isOfMethod = false →
    ∀ moves : List ReaderMove, (∀ m ∈ moves, m.goesOn = true) → r.parse.Lasts e moves
  unserved : ∀ token, r.outcome = .error (.unsupportedMethod token) →
    ∀ moves : List ReaderMove, (∀ m ∈ moves, m.goesOn = true) →
      ∀ o ∈ r.parse.outcomes moves, o ≠ .ok .complete
  line : ∀ e, r.outcome = .error e → e.isOfLine = true →
    ∃ before line after, r.parser.StopsAt r.buffer.unread before line after e
  requestLine : r.parser.TakesLine r.buffer.unread r.parse.parser.requestLine?

/-- However a parser and its buffer have been used, what parsing them finds stays so. -/
theorem run_settles (capacity : Nat) (moves : List ReaderMove) :
    ((start capacity).run moves).Settles := by
  have hb : ((start capacity).run moves).buffer.Tidy :=
    tidy_run (r := start capacity) (Buffer.tidy_ofCapacity capacity) moves
  constructor
  · intro progress ho
    exact parse_parse_of_ok hb ho
  · intro e ho he later hlater
    exact (stuck_parse hb ho he).lasts hlater
  · intro token ho later hlater
    exact ne_complete_of_unserved (Parser.unserved_of_error ho rfl) hlater
  · intro e ho he
    exact Parser.exists_stopsAt ho he
  · exact Parser.takesLine_read _ _

end Reader
end EventHttp
