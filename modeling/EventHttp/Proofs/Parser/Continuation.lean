import EventHttp.Buffer.View
import EventHttp.Message.Parser
import EventHttp.Proofs.LineEnd

/-! A reading goes on where it stopped.  Bytes behind a decided reading stay
unread, and a reading that wants more data goes on with them as if they had been
there at once: `Parser.read_append`. -/

namespace EventHttp

def Reading.resume (r : Reading) (more : List UInt8) : Reading :=
  match r.outcome with
  | .ok .needMoreData => r.parser.read (r.rest ++ more)
  | _ => { r with rest := r.rest ++ more }

def Parser.waiting (p : Parser) (input : List UInt8) : Reading :=
  ⟨p, .ok .needMoreData, input⟩

namespace Reading

theorem resume_of_needMoreData {r : Reading} (h : r.outcome = .ok .needMoreData)
    (more : List UInt8) : r.resume more = r.parser.read (r.rest ++ more) := by
  rw [resume, h]

theorem resume_of_decided {r : Reading} (h : r.outcome ≠ .ok .needMoreData) (more : List UInt8) :
    r.resume more = { r with rest := r.rest ++ more } := by
  unfold resume
  split
  · rename_i ho
    exact (h ho).elim
  · rfl

end Reading

namespace Parser

theorem resume_waiting (p : Parser) (input more : List UInt8) :
    (p.waiting input).resume more = p.read (input ++ more) := rfl

theorem readBody_append (line : RequestLine) (fields : Headers) (input more : List UInt8) :
    readBody line fields (input ++ more) = (readBody line fields input).resume more := by
  have hr : ∀ s, readBody line fields s = (Parser.body line fields).read s := fun _ => rfl
  cases hc : fields.contentLength with
  | error e => simp [readBody, hc, Reading.resume]
  | ok n =>
    by_cases hn : input.length < n
    · have hw : readBody line fields input = (Parser.body line fields).waiting input := by
        simp [readBody, hc, hn, waiting]
      rw [hw, resume_waiting, hr]
    · have hm : ¬ (input ++ more).length < n := by
        rw [List.length_append]
        omega
      simp only [readBody, hc, if_neg hn, if_neg hm, Reading.resume]
      rw [List.take_append_of_le_length (Nat.le_of_not_lt hn),
        List.drop_append_of_le_length (Nat.le_of_not_lt hn)]

theorem endHead_append (line : RequestLine) (fields : Headers) (input more : List UInt8) :
    endHead line fields (input ++ more) = (endHead line fields input).resume more := by
  unfold endHead
  cases Method.ofToken? line.method with
  | none => rfl
  | some method =>
    cases method with
    | get => rfl
    | post => exact readBody_append line fields input more

theorem readHeaders_of_none {line : RequestLine} {fields : Headers} {input : List UInt8}
    (h : splitLine? input = none) :
    readHeaders line fields input = (Parser.headers line fields).waiting input := by
  rw [readHeaders]
  split
  · rfl
  all_goals simp_all

theorem readHeaders_of_blank {line : RequestLine} {fields : Headers} {input rest : List UInt8}
    (h : splitLine? input = some ([], rest)) :
    readHeaders line fields input = endHead line fields rest := by
  rw [readHeaders]
  split <;> simp_all

theorem readHeaders_of_line {line : RequestLine} {fields : Headers} {input l rest : List UInt8}
    (h : splitLine? input = some (l, rest)) (hl : l ≠ []) :
    readHeaders line fields input = match Headers.read l with
      | .error e => ⟨.headers line fields, .error e, input⟩
      | .ok (name, value) => readHeaders line (fields.put name value) rest := by
  rw [readHeaders]
  split
  · simp_all
  · simp_all
  · rename_i x xs rest' hx
    obtain ⟨rfl, rfl⟩ := Prod.mk.inj (Option.some.inj (h.symm.trans hx))
    rfl

theorem readHeaders_append (line : RequestLine) (fields : Headers) (input more : List UInt8) :
    readHeaders line fields (input ++ more) = (readHeaders line fields input).resume more := by
  -- each line that is taken leaves a shorter input, with other fields
  induction hn : input.length using Nat.strongRecOn generalizing fields input with
  | ind n ih =>
    cases hs : splitLine? input with
    | none => rw [readHeaders_of_none hs]; rfl
    | some p =>
      obtain ⟨l, rest⟩ := p
      have hm := splitLine?_append hs more
      by_cases hl : l = []
      · subst hl
        rw [readHeaders_of_blank hs, readHeaders_of_blank hm, endHead_append]
      · rw [readHeaders_of_line hs hl, readHeaders_of_line hm hl]
        cases Headers.read l with
        | error e => rfl
        | ok field => exact ih rest.length (hn ▸ length_splitLine?_lt hs) _ rest rfl

theorem readLine_append (input more : List UInt8) :
    readLine (input ++ more) = (readLine input).resume more := by
  cases hs : splitLine? input with
  | none =>
    have hw : readLine input = Parser.start.waiting input := by simp [readLine, hs, waiting]
    rw [hw]
    rfl
  | some p =>
    obtain ⟨l, rest⟩ := p
    simp only [readLine, hs, splitLine?_append hs more]
    cases RequestLine.read l with
    | error e => rfl
    | ok line => exact readHeaders_append line .empty rest more

theorem read_append (p : Parser) (input more : List UInt8) :
    p.read (input ++ more) = (p.read input).resume more := by
  cases p with
  | start => exact readLine_append input more
  | headers line fields => exact readHeaders_append line fields input more
  | body line fields => exact readBody_append line fields input more
  | done line fields content => rfl

theorem read_rest_of_needMoreData {p : Parser} {input : List UInt8}
    (h : (p.read input).outcome = .ok .needMoreData) :
    (p.read input).parser.read (p.read input).rest = p.read input := by
  have ha := read_append p input []
  rwa [Reading.resume_of_needMoreData h, List.append_nil, List.append_nil, eq_comm] at ha

theorem readBody_rest_suffix (line : RequestLine) (fields : Headers) (input : List UInt8) :
    (readBody line fields input).rest <:+ input := by
  unfold readBody
  split
  · exact List.suffix_rfl
  · split
    · exact List.suffix_rfl
    · exact List.drop_suffix _ input

theorem endHead_rest_suffix (line : RequestLine) (fields : Headers) (input : List UInt8) :
    (endHead line fields input).rest <:+ input := by
  unfold endHead
  split
  · exact List.suffix_rfl
  · exact List.suffix_rfl
  · exact readBody_rest_suffix line fields input

theorem suffix_of_splitLine? {s line rest : List UInt8} (h : splitLine? s = some (line, rest)) :
    rest <:+ s := by
  obtain ⟨-, rfl⟩ := eq_of_splitLine? h
  exact List.suffix_append _ rest

theorem readHeaders_rest_suffix (line : RequestLine) (fields : Headers) (input : List UInt8) :
    (readHeaders line fields input).rest <:+ input := by
  induction hn : input.length using Nat.strongRecOn generalizing fields input with
  | ind n ih =>
    cases hs : splitLine? input with
    | none => rw [readHeaders_of_none hs]; exact List.suffix_rfl
    | some p =>
      obtain ⟨l, rest⟩ := p
      have hr := suffix_of_splitLine? hs
      by_cases hl : l = []
      · subst hl
        rw [readHeaders_of_blank hs]
        exact (endHead_rest_suffix line fields rest).trans hr
      · rw [readHeaders_of_line hs hl]
        cases Headers.read l with
        | error e => exact List.suffix_rfl
        | ok field => exact (ih rest.length (hn ▸ length_splitLine?_lt hs) _ rest rfl).trans hr

theorem read_rest_suffix (p : Parser) (input : List UInt8) : (p.read input).rest <:+ input := by
  cases p with
  | start =>
    change (readLine input).rest <:+ input
    unfold readLine
    split
    · exact List.suffix_rfl
    · rename_i l rest hs
      split
      · exact List.suffix_rfl
      · exact (readHeaders_rest_suffix _ .empty rest).trans (suffix_of_splitLine? hs)
  | headers line fields => exact readHeaders_rest_suffix line fields input
  | body line fields => exact readBody_rest_suffix line fields input
  | done line fields content => exact List.suffix_rfl

theorem unread_parse (p : Parser) {b : Buffer} (h : b.WellFormed) :
    (p.parse b).2.2.unread = (p.read b.unread).rest := by
  have hd := List.suffix_iff_eq_drop.mp (read_rest_suffix p b.unread)
  change (b.retrieve _).unread = _
  rw [Buffer.unread_retrieve h, ← Buffer.length_unread h]
  exact hd.symm

theorem wellFormed_parse (p : Parser) {b : Buffer} (h : b.WellFormed) :
    (p.parse b).2.2.WellFormed :=
  h.retrieve _

end Parser
end EventHttp
