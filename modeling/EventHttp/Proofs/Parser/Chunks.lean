import EventHttp.Proofs.Parser.Continuation

/-! A stream that arrives in chunks is read as if it had arrived at once, whatever
the cuts and however much room the buffer had. -/

namespace EventHttp

structure Feeding where
  parser : Parser
  outcome : Except ParseError Progress
  buffer : Buffer
  unfed : List (List UInt8)

def Feeding.unread (f : Feeding) : List UInt8 :=
  f.buffer.unread ++ f.unfed.flatten

def Feeding.reading (f : Feeding) : Reading :=
  ⟨f.parser, f.outcome, f.unread⟩

namespace Parser

/-- Appends chunk after chunk and parses after each, until more data is not what is wanted. -/
def feed (p : Parser) (b : Buffer) : List (List UInt8) → Feeding
  | [] => ⟨p, .ok .needMoreData, b, []⟩
  | chunk :: rest =>
    match p.parse (b.append chunk) with
    | (p, .ok .needMoreData, b) => p.feed b rest
    | (p, outcome, b) => ⟨p, outcome, b, rest⟩

theorem feed_of_needMoreData {p : Parser} {b : Buffer} {chunk : List UInt8}
    (h : (p.parse (b.append chunk)).2.1 = .ok .needMoreData) (rest : List (List UInt8)) :
    p.feed b (chunk :: rest) =
      (p.parse (b.append chunk)).1.feed (p.parse (b.append chunk)).2.2 rest := by
  rw [feed]
  split
  · rename_i hp
    rw [hp]
  · rename_i hn hp
    rw [hp] at h
    exact (hn h).elim

theorem feed_of_decided {p : Parser} {b : Buffer} {chunk : List UInt8}
    (h : (p.parse (b.append chunk)).2.1 ≠ .ok .needMoreData) (rest : List (List UInt8)) :
    p.feed b (chunk :: rest) =
      ⟨(p.parse (b.append chunk)).1, (p.parse (b.append chunk)).2.1,
        (p.parse (b.append chunk)).2.2, rest⟩ := by
  rw [feed]
  split
  · rename_i hp
    rw [hp] at h
    exact (h rfl).elim
  · rename_i hp
    rw [hp]

theorem reading_feed {p : Parser} {b : Buffer} (hb : b.WellFormed)
    (hw : p.read b.unread = p.waiting b.unread) (chunks : List (List UInt8)) :
    (p.feed b chunks).reading = p.read (b.unread ++ chunks.flatten) := by
  induction chunks generalizing p b with
  | nil =>
    rw [List.flatten_nil, List.append_nil, hw]
    simp [feed, Feeding.reading, Feeding.unread, waiting]
  | cons chunk rest ih =>
    have ha := hb.append chunk
    have hu := unread_parse p ha
    have hr : p.read (b.append chunk).unread = p.read (b.unread ++ chunk) := by
      rw [Buffer.unread_append hb]
    rw [List.flatten_cons, ← List.append_assoc, read_append, ← hr]
    -- the rest of the stream is read by the parser that is left, or stays unread
    by_cases ho : (p.read (b.append chunk).unread).outcome = .ok .needMoreData
    · rw [feed_of_needMoreData ho, Reading.resume_of_needMoreData ho, ← hu]
      refine ih (wellFormed_parse p ha) ?_
      have hs := read_rest_of_needMoreData ho
      rw [hu]
      exact hs.trans (by rw [waiting, ← ho]; rfl)
    · rw [feed_of_decided ho, Reading.resume_of_decided ho, ← hu]
      rfl

theorem unfed_of_needMoreData {p : Parser} {b : Buffer} {chunks : List (List UInt8)}
    (h : (p.feed b chunks).outcome = .ok .needMoreData) : (p.feed b chunks).unfed = [] := by
  induction chunks generalizing p b with
  | nil => rfl
  | cons chunk rest ih =>
    by_cases ho : (p.parse (b.append chunk)).2.1 = .ok .needMoreData
    · rw [feed_of_needMoreData ho] at h ⊢
      exact ih h
    · rw [feed_of_decided ho] at h
      exact (ho h).elim

/-- The outcome, the parser and the bytes that stay unread are those of one parse
of all the chunks together; a feeding that still wants data has taken them all. -/
theorem feed_eq_parse_flatten (capacity whole : Nat) (chunks : List (List UInt8)) :
    let f := start.feed (.ofCapacity capacity) chunks
    let parsed := start.parse ((Buffer.ofCapacity whole).append chunks.flatten)
    f.outcome = parsed.2.1 ∧ f.parser = parsed.1 ∧ f.unread = parsed.2.2.unread ∧
      (f.outcome = .ok .needMoreData → f.unfed = [] ∧ f.buffer.unread = parsed.2.2.unread) := by
  intro f parsed
  have hb := Buffer.wellFormed_ofCapacity whole
  have hw : start.read (Buffer.ofCapacity capacity).unread =
      start.waiting (Buffer.ofCapacity capacity).unread := by
    rw [Buffer.unread_ofCapacity]
    rfl
  have hf : f.reading = start.read chunks.flatten := by
    have hr := reading_feed (Buffer.wellFormed_ofCapacity capacity) hw chunks
    rwa [Buffer.unread_ofCapacity, List.nil_append] at hr
  have hu : ((Buffer.ofCapacity whole).append chunks.flatten).unread = chunks.flatten := by
    rw [Buffer.unread_append hb, Buffer.unread_ofCapacity, List.nil_append]
  have hp : ⟨parsed.1, parsed.2.1, parsed.2.2.unread⟩ = start.read chunks.flatten := by
    rw [unread_parse start (hb.append _)]
    exact congrArg start.read hu
  have he : f.reading = ⟨parsed.1, parsed.2.1, parsed.2.2.unread⟩ := hf.trans hp.symm
  obtain ⟨hparser, houtcome, hunread⟩ := Reading.mk.inj he
  refine ⟨houtcome, hparser, hunread, fun hm => ?_⟩
  have hn : f.unfed = [] := unfed_of_needMoreData hm
  rw [Feeding.unread, hn, List.flatten_nil, List.append_nil] at hunread
  exact ⟨hn, hunread⟩

end Parser
end EventHttp
