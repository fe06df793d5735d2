import EventHttp.Proofs.Parser.Chunks
import EventHttp.Proofs.Parser.RequestBytes

/-! One parser and one buffer for all the requests of a client.  Requests that are sent one
behind the other are taken one after the other, however the stream is cut: each as if it had
been sent alone, with the parser as good as new after it and nothing of it left in the buffer. -/

namespace EventHttp

structure Taking where
  taken : List (Request × Parser)
  parser : Parser
  outcome : Except ParseError Progress
  buffer : Buffer

namespace Buffer

theorem length_unread_le (b : Buffer) : b.unread.length ≤ b.readable := by
  rw [unread, Array.length_toList, Array.size_extract, readable]
  omega

end Buffer

namespace Parser

theorem parse_of_read {p : Parser} {b : Buffer} {r : Reading} (hb : b.WellFormed)
    (h : p.read b.unread = r) :
    (p.parse b).1 = r.parser ∧ (p.parse b).2.1 = r.outcome ∧ (p.parse b).2.2.unread = r.rest :=
  ⟨congrArg Reading.parser h, congrArg Reading.outcome h,
    (unread_parse p hb).trans (congrArg Reading.rest h)⟩

theorem takeRequest_snd_of_some {p q : Parser} {r : Request}
    (h : p.takeRequest = (some r, q)) : q = start := by
  unfold takeRequest at h
  split at h
  · split at h
    · exact (Prod.mk.inj h).2.symm
    · cases h
  · cases h

theorem readable_parse_le (p : Parser) (b : Buffer) : (p.parse b).2.2.readable ≤ b.readable := by
  change (b.retrieve _).readable ≤ _
  rw [Buffer.readable_retrieve]
  exact Nat.sub_le ..

theorem length_readLine_lt {input : List UInt8}
    (h : (readLine input).outcome = .ok .complete) : (readLine input).rest.length < input.length := by
  unfold readLine at h ⊢
  split
  · simp_all
  · rename_i l rest hs
    split
    · simp_all
    · exact (readHeaders_rest_suffix _ .empty rest).length_le.trans_lt (length_splitLine?_lt hs)

theorem readable_parse_lt {b : Buffer} (h : (start.parse b).2.1 = .ok .complete) :
    (start.parse b).2.2.readable < b.readable := by
  have hlt : (start.read b.unread).rest.length < b.unread.length := length_readLine_lt h
  have hle := Buffer.length_unread_le b
  change (b.retrieve _).readable < _
  rw [Buffer.readable_retrieve]
  omega

def takeAll (p : Parser) (b : Buffer) : Taking :=
  match _hp : p.parse b with
  | (q, .ok .complete, rest) =>
    match _ht : q.takeRequest with
    | (some r, next) =>
      let later := takeAll next rest
      { later with taken := (r, next) :: later.taken }
    | (none, q) => ⟨[], q, .ok .complete, rest⟩
  | (q, outcome, rest) => ⟨[], q, outcome, rest⟩
termination_by b.readable + if p = start then 0 else 1
decreasing_by
  have hle := readable_parse_le p b
  rw [if_pos (takeRequest_snd_of_some _ht)]
  split
  · rename_i hstart
    subst hstart
    have hlt := readable_parse_lt (congrArg (·.2.1) _hp)
    rw [_hp] at hlt
    exact hlt
  · rw [_hp] at hle
    exact Nat.lt_succ_of_le hle

theorem takeAll_of_complete {p : Parser} {b : Buffer} {r : Request}
    (ho : (p.parse b).2.1 = .ok .complete)
    (ht : (p.parse b).1.takeRequest = (some r, start)) :
    p.takeAll b = { start.takeAll (p.parse b).2.2 with
      taken := (r, start) :: (start.takeAll (p.parse b).2.2).taken } := by
  rw [takeAll]
  split
  · rename_i hp
    rw [hp] at ht ⊢
    split <;> simp_all
  · simp_all

theorem takeAll_of_needMoreData {p : Parser} {b : Buffer}
    (ho : (p.parse b).2.1 = .ok .needMoreData) :
    p.takeAll b = ⟨[], (p.parse b).1, .ok .needMoreData, (p.parse b).2.2⟩ := by
  rw [takeAll]
  split
  · simp_all
  · rename_i hp
    rw [hp] at ho ⊢
    exact congrArg (Taking.mk _ _ · _) ho

/-- Appends chunk after chunk, and after each takes the requests that are then there; after a
failure nothing more is taken. -/
def takeFeeding (p : Parser) (b : Buffer) : List (List UInt8) → Taking
  | [] => ⟨[], p, .ok .needMoreData, b⟩
  | chunk :: rest =>
    let t := p.takeAll (b.append chunk)
    match t.outcome with
    | .ok .needMoreData =>
      let later := takeFeeding t.parser t.buffer rest
      { later with taken := t.taken ++ later.taken }
    | _ => t

structure Behind (p : Parser) (b : Buffer) (s : List UInt8) : Prop where
  wellFormed : b.WellFormed
  read : start.read s = ⟨p, .ok .needMoreData, b.unread⟩

theorem Behind.parse {p : Parser} {b : Buffer} {s : List UInt8} (h : b.WellFormed)
    (hr : p.read b.unread = start.read s) (ho : (start.read s).outcome = .ok .needMoreData) :
    Behind (p.parse b).1 (p.parse b).2.2 s where
  wellFormed := wellFormed_parse p h
  read := by
    have hparser : (p.parse b).1 = (start.read s).parser := congrArg Reading.parser hr
    rw [unread_parse p h, hr, hparser, ← ho]

theorem Behind.read_append {p : Parser} {b : Buffer} {s : List UInt8} (h : Behind p b s)
    (chunk : List UInt8) : p.read (b.append chunk).unread = start.read (s ++ chunk) := by
  rw [Buffer.unread_append h.wellFormed, Parser.read_append start s chunk, h.read]
  rfl

theorem read_of_not_infix {s : List UInt8} (h : ¬ crlf <:+: s) : start.read s = start.waiting s := by
  change readLine s = _
  rw [readLine, splitLine?_eq_none_iff.mpr h]
  rfl

end Parser

namespace Request

def stream (requests : List Request) (tail : List UInt8) : List UInt8 :=
  requests.flatMap bytes ++ tail

theorem stream_cons (r : Request) (rest : List Request) (tail : List UInt8) :
    stream (r :: rest) tail = r.bytes ++ stream rest tail := by
  rw [stream, List.flatMap_cons, List.append_assoc]
  rfl

theorem Sendable.outcome_partway {r : Request} (h : r.Sendable) {s missing : List UInt8}
    (hs : s ++ missing = r.bytes) (hm : missing ≠ []) :
    (Parser.start.read s).outcome = .ok .needMoreData := by
  by_contra ho
  have hwhole := h.read []
  rw [List.append_nil, ← hs, Parser.read_append, Reading.resume_of_decided ho] at hwhole
  have hrest : (Parser.start.read s).rest ++ missing = [] := congrArg Reading.rest hwhole
  exact hm (List.append_eq_nil_iff.mp hrest).2

variable {requests : List Request} {tail : List UInt8}

theorem read_stream_partway (hr : ∀ r ∈ requests, r.Sendable) (ht : ¬ crlf <:+: tail)
    {s coming : List UInt8} (hs : s ++ coming = stream requests tail) :
    (Parser.start.read s).outcome = .ok .needMoreData ∨
      ∃ r rest s', requests = r :: rest ∧ s = r.bytes ++ s' ∧ s' ++ coming = stream rest tail := by
  cases requests with
  | nil =>
    have hs : s ++ coming = tail := hs
    have hfree : ¬ crlf <:+: s := fun hi => ht (hi.trans ⟨[], coming, hs⟩)
    rw [Parser.read_of_not_infix hfree]
    exact Or.inl rfl
  | cons r rest =>
    rw [stream_cons] at hs
    rcases List.append_eq_append_iff.mp hs with ⟨missing, hb, hc⟩ | ⟨s', hb, hc⟩
    · by_cases hm : missing = []
      · subst hm
        rw [List.append_nil] at hb
        exact Or.inr ⟨r, rest, [], rfl, by rw [List.append_nil, hb], hc⟩
      · exact Or.inl ((hr r List.mem_cons_self).outcome_partway hb.symm hm)
    · exact Or.inr ⟨r, rest, s', rfl, hb, hc.symm⟩

structure Served (requests : List Request) (tail coming : List UInt8) (t : Taking) : Prop where
  outcome : t.outcome = .ok .needMoreData
  split : ∃ done rest s, requests = done ++ rest ∧ s ++ coming = stream rest tail ∧
    t.taken = done.map (fun r => (r.served, Parser.start)) ∧ Parser.Behind t.parser t.buffer s

theorem served_takeAll (hr : ∀ r ∈ requests, r.Sendable) (ht : ¬ crlf <:+: tail) {p : Parser}
    {b : Buffer} {s coming : List UInt8} (hb : b.WellFormed)
    (hp : p.read b.unread = Parser.start.read s) (hs : s ++ coming = stream requests tail) :
    Served requests tail coming (p.takeAll b) := by
  induction requests generalizing p b s with
  | nil =>
    have ho := (read_stream_partway hr ht hs).resolve_right fun ⟨_, _, _, he, _⟩ => by cases he
    rw [Parser.takeAll_of_needMoreData ((congrArg Reading.outcome hp).trans ho)]
    exact ⟨rfl, [], [], s, rfl, hs, rfl, .parse hb hp ho⟩
  | cons r rest ih =>
    rcases read_stream_partway hr ht hs with ho | ⟨_, _, s', he, rfl, hc⟩
    · rw [Parser.takeAll_of_needMoreData ((congrArg Reading.outcome hp).trans ho)]
      exact ⟨rfl, [], r :: rest, s, rfl, hs, rfl, .parse hb hp ho⟩
    · cases he
      have hfirst := hr r List.mem_cons_self
      obtain ⟨hparser, hcomplete, hrest⟩ := Parser.parse_of_read hb (hp.trans (hfirst.read s'))
      obtain ⟨ho, done, later, s, hsplit, hcoming, htaken, hbehind⟩ :=
        ih (fun q hq => hr q (List.mem_cons_of_mem r hq)) (p := .start)
          (Parser.wellFormed_parse p hb) (congrArg Parser.start.read hrest) hc
      rw [Parser.takeAll_of_complete hcomplete ((congrArg Parser.takeRequest hparser).trans
        hfirst.takeRequest)]
      exact ⟨ho, r :: done, later, s, congrArg (r :: ·) hsplit, hcoming,
        congrArg ((r.served, Parser.start) :: ·) htaken, hbehind⟩

theorem served_takeFeeding (hr : ∀ r ∈ requests, r.Sendable) (ht : ¬ crlf <:+: tail) {p : Parser}
    {b : Buffer} {s : List UInt8} (hp : Parser.Behind p b s) {chunks : List (List UInt8)}
    (hs : s ++ chunks.flatten = stream requests tail) :
    Served requests tail [] (p.takeFeeding b chunks) := by
  induction chunks generalizing p b s requests with
  | nil => exact ⟨rfl, [], requests, s, rfl, hs, rfl, hp⟩
  | cons chunk chunks ih =>
    rw [List.flatten_cons, ← List.append_assoc] at hs
    obtain ⟨ho, done, rest, s', rfl, hcoming, htaken, hbehind⟩ :=
      served_takeAll hr ht (hp.wellFormed.append chunk) (hp.read_append chunk) hs
    obtain ⟨ho', done', rest', s'', rfl, hcoming', htaken', hbehind'⟩ :=
      ih (fun r hm => hr r (List.mem_append_right done hm)) hbehind hcoming
    rw [Parser.takeFeeding]
    dsimp only
    rw [ho]
    refine ⟨ho', done ++ done', rest', s'', (List.append_assoc ..).symm, hcoming', ?_, hbehind'⟩
    dsimp only
    rw [htaken, htaken', List.map_append]

theorem Served.complete {t : Taking} (hr : ∀ r ∈ requests, r.Sendable) (ht : ¬ crlf <:+: tail)
    (h : Served requests tail [] t) :
    t.taken = requests.map (fun r => (r.served, Parser.start)) ∧ t.parser = .start ∧
      t.buffer.unread = tail := by
  obtain ⟨-, done, rest, s, rfl, hs, htaken, hbehind⟩ := h
  rw [List.append_nil] at hs
  subst hs
  have hread := hbehind.read
  cases rest with
  | nil =>
    have hwaiting : Parser.start.waiting tail = ⟨t.parser, .ok .needMoreData, t.buffer.unread⟩ :=
      (Parser.read_of_not_infix ht).symm.trans hread
    obtain ⟨hparser, -, htail⟩ := Reading.mk.inj hwaiting
    rw [List.append_nil]
    exact ⟨htaken, hparser.symm, htail.symm⟩
  | cons r rest =>
    -- a parser does not wait where a request has come to its end
    rw [stream_cons, (hr r (by simp)).read] at hread
    cases congrArg Reading.outcome hread

end Request

namespace Parser

/-- Requests come back as they were sent, however the stream is cut, and each as it would have
alone; the parser is as new after each, and the tail waits for more. -/
theorem takeFeeding_stream (capacity : Nat) {requests : List Request}
    (hr : ∀ r ∈ requests, r.Sendable) {tail : List UInt8} (ht : ¬ crlf <:+: tail)
    {chunks : List (List UInt8)} (hc : chunks.flatten = Request.stream requests tail) :
    let t := start.takeFeeding (.ofCapacity capacity) chunks
    t.taken = requests.map (fun r => (r.served, start)) ∧
      (t.outcome = .ok .needMoreData ∧ t.parser = start ∧ t.buffer.unread = tail) ∧
      ∀ r ∈ requests, ∀ room, let alone := start.parse ((Buffer.ofCapacity room).append r.bytes)
        alone.2.1 = .ok .complete ∧ alone.1.takeRequest = (some r.served, start) ∧
          alone.2.2.unread = [] := by
  intro t
  have hb := Buffer.wellFormed_ofCapacity capacity
  have hstart : Behind start (.ofCapacity capacity) [] := ⟨hb, by rw [Buffer.unread_ofCapacity]; rfl⟩
  have hserved := Request.served_takeFeeding hr ht hstart hc
  obtain ⟨htaken, hparser, htail⟩ := hserved.complete hr ht
  refine ⟨htaken, ⟨hserved.outcome, hparser, htail⟩, fun r hm room => ?_⟩
  have hroom := Buffer.wellFormed_ofCapacity room
  have hunread : ((Buffer.ofCapacity room).append r.bytes).unread = r.bytes ++ [] := by
    rw [Buffer.unread_append hroom, Buffer.unread_ofCapacity, List.nil_append, List.append_nil]
  obtain ⟨hparser, ho, hrest⟩ := parse_of_read (hroom.append r.bytes)
    ((congrArg start.read hunread).trans ((hr r hm).read []))
  intro alone
  exact ⟨ho, (congrArg takeRequest hparser).trans (hr r hm).takeRequest, hrest⟩

/-- A request whose body looks like another one, and one that repeats a field, come in two
parts, the first of which ends between the two bytes of a line end. -/
theorem takeFeeding_stream_two :
    let post : Request := ⟨.post, "/login", "1.1", ⟨[("Content-Length", "18")]⟩,
      bytesOf "GET / HTTP/1.1\r\n\r\n"⟩
    let get : Request := ⟨.get, "/", "1.0", ⟨[("Host", "a"), ("HOST", "b")]⟩, []⟩
    let sent := Request.stream [post, get] (bytesOf "GET /late\r")
    let t := start.takeFeeding (.ofCapacity 0) [sent.take 21, sent.drop 21]
    (post.Sendable ∧ get.Sendable ∧ ¬ crlf <:+: bytesOf "GET /late\r") ∧
      t.taken = [({ post with path := "/login.html" }, start),
        ({ get with path := "/index.html", headers := ⟨[("HOST", "b")]⟩ }, start)] ∧
      t.buffer.unread = bytesOf "GET /late\r" := by
  intro post get sent t
  have hlines : ∀ r ∈ [post, get], ∀ field ∈ r.headers.fields,
      splitLine? (bytesOf (Headers.lineOf field)) = none := by decide
  have hspells : Decimal.Spells (Blank.trim "18".toList) 18 :=
    (Decimal.unsigned?_eq_some_iff.mp (by decide : Decimal.unsigned? UInt64.size _ = some 18)).1
  have hpost : post.Sendable :=
    ⟨⟨by decide, splitLine?_eq_none_iff.mp (by decide)⟩,
      ⟨by decide, splitLine?_eq_none_iff.mp (by decide)⟩, by decide,
      fun f hf => splitLine?_eq_none_iff.mp (hlines post (by simp) f hf),
      Or.inr ⟨rfl, "18", by decide, hspells, by decide⟩⟩
  have hget : get.Sendable :=
    ⟨⟨by decide, splitLine?_eq_none_iff.mp (by decide)⟩,
      ⟨by decide, splitLine?_eq_none_iff.mp (by decide)⟩, by decide,
      fun f hf => splitLine?_eq_none_iff.mp (hlines get (by simp) f hf), Or.inl ⟨rfl, rfl⟩⟩
  have htail : ¬ crlf <:+: bytesOf "GET /late\r" := splitLine?_eq_none_iff.mp (by decide)
  have hr : ∀ r ∈ [post, get], r.Sendable := by
    intro r hm
    simp only [List.mem_cons, List.not_mem_nil, or_false] at hm
    rcases hm with rfl | rfl
    · exact hpost
    · exact hget
  have hchunks : [sent.take 21, sent.drop 21].flatten = sent := by
    rw [List.flatten_cons, List.flatten_singleton, List.take_append_drop]
  have hserved : [post, get].map (fun r => (r.served, start)) =
      [({ post with path := "/login.html" }, start),
        ({ get with path := "/index.html", headers := ⟨[("HOST", "b")]⟩ }, start)] := by decide
  obtain ⟨htaken, ⟨-, -, hunread⟩, -⟩ := takeFeeding_stream 0 hr htail hchunks
  exact ⟨⟨hpost, hget, htail⟩, htaken.trans hserved, hunread⟩

end Parser
end EventHttp
