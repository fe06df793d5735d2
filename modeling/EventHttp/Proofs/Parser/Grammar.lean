import EventHttp.Proofs.Parser.Continuation
import EventHttp.Proofs.Parser.RequestText

/-! The parser takes the valid requests and nothing else, and what it holds at the
end are the parts of the request as it was written.  A valid text is read line by
line to its end; a reading that completes is traced back to the lines it took. -/

namespace EventHttp

def RequestLine.WrittenAs (l : RequestLine) (line : String) : Prop :=
  ∃ method target version : String,
    (' ' ∉ method.toList ∧ ' ' ∉ target.toList ∧ ' ' ∉ version.toList) ∧
      line = text method target version ∧ l = ⟨method, Path.normalize target, version⟩

theorem RequestLine.writtenAs_of_ofText? {line : String} {l : RequestLine}
    (h : ofText? line.toList = some l) : l.WrittenAs line := by
  unfold ofText? at h
  split at h
  · cases h
  · rename_i method rest hm
    obtain ⟨hmethod, hl⟩ := splitFirst?_eq_some_iff.mp hm
    split at h
    · cases h
    · rename_i target rest hp
      obtain ⟨htarget, rfl⟩ := splitFirst?_eq_some_iff.mp hp
      split at h
      · rename_i version
        split at h
        · cases h
        · rename_i hversion
          refine ⟨String.ofList method, String.ofList target, String.ofList version, ?_, ?_, ?_⟩
          · rw [String.toList_ofList, String.toList_ofList, String.toList_ofList]
            exact ⟨hmethod, htarget, hversion⟩
          · apply String.toList_inj.mp
            rw [hl, toList_text, String.toList_ofList, String.toList_ofList, String.toList_ofList]
          · exact (Option.some.inj h).symm
      · cases h

theorem RequestLine.ofText?_of_writtenAs {line : String} {l : RequestLine}
    (h : l.WrittenAs line) : ofText? line.toList = some l := by
  obtain ⟨method, target, version, ⟨hmethod, htarget, hversion⟩, rfl, rfl⟩ := h
  rw [ofText?, toList_text, splitFirst?_eq_some_iff.mpr ⟨hmethod, rfl⟩]
  dsimp only
  rw [splitFirst?_eq_some_iff.mpr ⟨htarget, rfl⟩]
  refine (if_neg hversion).trans ?_
  rw [String.ofList_toList, String.ofList_toList, String.ofList_toList]

theorem RequestLine.read_eq_ok_iff {bytes : List UInt8} {l : RequestLine} :
    read bytes = .ok l ↔ ∃ line : String, bytes = bytesOf line ∧ l.WrittenAs line := by
  constructor
  · intro h
    unfold read at h
    split at h
    · cases h
    · rename_i text hd
      split at h
      · cases h
      · rename_i parts hl
        obtain rfl := Except.ok.inj h
        refine ⟨String.ofList text, ?_, writtenAs_of_ofText? ?_⟩
        · rw [bytesOf, String.toList_ofList]
          exact Utf8.eq_encode_of_decode? hd
        · rw [String.toList_ofList]
          exact hl
  · rintro ⟨line, rfl, hl⟩
    rw [read, bytesOf, Utf8.decode?_encode]
    dsimp only
    rw [ofText?_of_writtenAs hl]

theorem Headers.fieldOf_append {line : String} {name value : List Char} (hn : ':' ∉ name)
    (hl : line.toList = name ++ ':' :: value) :
    fieldOf line = (String.ofList name,
      String.ofList (if value.head? = some ' ' then value.tail else value)) := by
  have hs := splitFirst?_eq_some_iff.mpr ⟨hn, hl⟩
  unfold splitFirst? at hs
  split at hs
  · cases hs
  · rename_i colon after hd
    obtain ⟨hname, rfl⟩ := Prod.mk.inj (Option.some.inj hs)
    rw [fieldOf, hname, hd]
    rfl

theorem Headers.read_bytesOf {line : String} (h : ':' ∈ line.toList) :
    read (bytesOf line) = .ok (fieldOf line) := by
  cases hs : splitFirst? ':' line.toList with
  | none => exact (splitFirst?_eq_none_iff.mp hs h).elim
  | some p =>
    obtain ⟨name, value⟩ := p
    obtain ⟨hn, hl⟩ := splitFirst?_eq_some_iff.mp hs
    rw [fieldOf_append hn hl, read, bytesOf, Utf8.decode?_encode]
    dsimp only
    rw [hs]
    cases value with
    | nil => rfl
    | cons c value =>
      by_cases hc : c = ' '
      · subst hc
        rfl
      · have hv : (if (c :: value).head? = some ' ' then (c :: value).tail else c :: value) =
            c :: value := if_neg fun he => hc (Option.some.inj he)
        rw [hv]
        split
        · rename_i hp
          cases hp
        · rename_i hp
          exact (hc (List.cons.inj (Prod.mk.inj (Option.some.inj hp)).2).1).elim
        · rename_i hp
          obtain ⟨rfl, rfl⟩ := Prod.mk.inj (Option.some.inj hp)
          rfl

theorem Headers.read_eq_ok_iff {bytes : List UInt8} {f : String × String} :
    read bytes = .ok f ↔
      ∃ line : String, ':' ∈ line.toList ∧ bytes = bytesOf line ∧ f = fieldOf line := by
  constructor
  · intro h
    have hr := h
    unfold read at hr
    split at hr
    · cases hr
    · rename_i text hd
      have hb : bytes = bytesOf (String.ofList text) := by
        rw [bytesOf, String.toList_ofList]
        exact Utf8.eq_encode_of_decode? hd
      have hc : ':' ∈ (String.ofList text).toList := by
        rw [String.toList_ofList]
        by_contra hn
        rw [splitFirst?_eq_none_iff.mpr hn] at hr
        cases hr
      refine ⟨String.ofList text, hc, hb, ?_⟩
      -- the field is known once the bytes are known to be those of a line
      rw [hb, read_bytesOf hc] at h
      exact (Except.ok.inj h).symm
  · rintro ⟨line, hc, rfl, rfl⟩
    exact read_bytesOf hc

theorem Headers.contentLength_putAll_eq_ok_iff {fields : List (String × String)} {n : Nat} :
    (empty.putAll fields).contentLength = .ok n ↔
      ∃ value, last? fields "Content-Length" = some value ∧
        Decimal.Spells (Blank.trim value.toList) n ∧ n < 2 ^ 64 := by
  rw [contentLength, get?_putAll_empty]
  cases last? fields "Content-Length" with
  | none => exact ⟨fun h => (nomatch h), fun ⟨_, h, _⟩ => (nomatch h)⟩
  | some value =>
    have hn := @Decimal.unsigned?_eq_some_iff UInt64.size (Blank.trim value.toList) n
    dsimp only
    cases hu : Decimal.unsigned? UInt64.size (Blank.trim value.toList) with
    | none =>
      refine ⟨fun h => (nomatch h), ?_⟩
      rintro ⟨_, hv, hs⟩
      obtain rfl := Option.some.inj hv
      exact absurd (hu.symm.trans (hn.mpr hs)) (by simp)
    | some m =>
      constructor
      · intro h
        exact ⟨value, rfl, hn.mp (hu.trans (congrArg some (Except.ok.inj h)))⟩
      · rintro ⟨_, hv, hs⟩
        obtain rfl := Option.some.inj hv
        exact congrArg Except.ok (Option.some.inj (hu.symm.trans (hn.mpr hs)))

namespace Parser

open RequestText (Framed HeaderLine headBytes)

variable {line : RequestLine} {fields : List (String × String)} {input body rest : List UInt8}

theorem readBody_of_contentLength {h : Headers} (hc : h.contentLength = .ok body.length)
    (rest : List UInt8) :
    readBody line h (body ++ rest) = ⟨.done line h body, .ok .complete, rest⟩ := by
  unfold readBody
  rw [hc]
  dsimp only
  rw [if_neg (by simp), List.take_left, List.drop_left]

theorem endHead_of_framed (h : Framed line.method fields body) (rest : List UInt8) :
    endHead line (Headers.empty.putAll fields) (body ++ rest) =
      ⟨.done line (Headers.empty.putAll fields) body, .ok .complete, rest⟩ := by
  rcases h with ⟨hm, rfl⟩ | ⟨hm, hl⟩
  · have hg : Method.ofToken? line.method = some .get := Method.ofToken?_eq_some_iff.mpr hm
    rw [endHead, hg]
    rfl
  · have hp : Method.ofToken? line.method = some .post := Method.ofToken?_eq_some_iff.mpr hm
    rw [endHead, hp]
    exact readBody_of_contentLength (Headers.contentLength_putAll_eq_ok_iff.mpr hl) rest

theorem framed_of_endHead
    (h : (endHead line (Headers.empty.putAll fields) input).outcome = .ok .complete) :
    ∃ body rest, Framed line.method fields body ∧ input = body ++ rest := by
  unfold endHead at h
  split at h
  · cases h
  · rename_i hm
    exact ⟨[], input, Or.inl ⟨Method.ofToken?_eq_some_iff.mp hm, rfl⟩, rfl⟩
  · rename_i hm
    unfold readBody at h
    split at h
    · cases h
    · rename_i n hc
      split at h
      · cases h
      · rename_i hn
        have hl : (input.take n).length = n := List.length_take_of_le (Nat.le_of_not_lt hn)
        refine ⟨input.take n, input.drop n, Or.inr ⟨Method.ofToken?_eq_some_iff.mp hm, ?_⟩,
          (List.take_append_drop n input).symm⟩
        rw [hl]
        exact Headers.contentLength_putAll_eq_ok_iff.mp hc

theorem readHeaders_headBytes {lines : List String} (hl : ∀ l ∈ lines, HeaderLine l)
    (h : Headers) (rest : List UInt8) :
    readHeaders line h (headBytes lines ++ rest) =
      endHead line (h.putAll (lines.map Headers.fieldOf)) rest := by
  induction lines generalizing h with
  | nil =>
    have hs : splitLine? (headBytes [] ++ rest) = some ([], rest) :=
      splitLine?_append_crlf (by simp [crlf]) rest
    exact readHeaders_of_blank hs
  | cons l lines ih =>
    have hhead := hl l List.mem_cons_self
    have hs := splitLine?_append_crlf hhead.1 (headBytes lines ++ rest)
    rw [RequestText.headBytes_cons, readHeaders_of_line hs hhead.bytes_ne_nil,
      Headers.read_bytesOf hhead.2]
    exact ih (fun m hm => hl m (List.mem_cons_of_mem l hm)) _

theorem exists_headBytes_of_readHeaders {h : Headers}
    (hc : (readHeaders line h input).outcome = .ok .complete) :
    ∃ lines rest, (∀ l ∈ lines, HeaderLine l) ∧ input = headBytes lines ++ rest := by
  -- the lines are collected from the front while the input gets shorter
  induction hn : input.length using Nat.strongRecOn generalizing h input with
  | ind n ih =>
    cases hs : splitLine? input with
    | none =>
      rw [readHeaders_of_none hs] at hc
      cases hc
    | some p =>
      obtain ⟨l, rest⟩ := p
      obtain ⟨hfree, hinput⟩ := eq_of_splitLine? hs
      by_cases hl : l = []
      · subst hl
        exact ⟨[], rest, fun _ hm => (nomatch hm), hinput⟩
      · rw [readHeaders_of_line hs hl] at hc
        cases hr : Headers.read l with
        | error e =>
          rw [hr] at hc
          cases hc
        | ok f =>
          rw [hr] at hc
          obtain ⟨lines, rest', hlines, hrest⟩ :=
            ih rest.length (hn ▸ length_splitLine?_lt hs) hc rfl
          obtain ⟨t, hcolon, rfl, -⟩ := Headers.read_eq_ok_iff.mp hr
          refine ⟨t :: lines, rest', ?_, ?_⟩
          · intro m hm
            rcases List.mem_cons.mp hm with rfl | hm
            · exact ⟨hfree, hcolon⟩
            · exact hlines m hm
          · rw [RequestText.headBytes_cons, ← hrest]
            exact hinput

def finished (t : RequestText) : Parser :=
  .done ⟨t.method, Path.normalize t.target, t.version⟩ (Headers.empty.putAll t.fields) t.body

theorem read_of_valid {t : RequestText} (h : t.Valid) (rest : List UInt8) :
    start.read (t.bytes ++ rest) = ⟨finished t, .ok .complete, rest⟩ := by
  have hl : RequestLine.read (bytesOf t.firstLine) =
      .ok ⟨t.method, Path.normalize t.target, t.version⟩ :=
    RequestLine.read_eq_ok_iff.mpr
      ⟨_, rfl, t.method, t.target, t.version, ⟨h.method, h.target, h.version⟩, rfl, rfl⟩
  change readLine (t.bytes ++ rest) = _
  rw [readLine, h.splitLine?_bytes]
  dsimp only
  rw [hl]
  dsimp only
  rw [readHeaders_headBytes h.lines]
  exact endHead_of_framed h.framed rest

theorem exists_valid_of_read {s : List UInt8} (h : (start.read s).outcome = .ok .complete) :
    ∃ (t : RequestText) (rest : List UInt8), t.Valid ∧ s = t.bytes ++ rest := by
  change (readLine s).outcome = _ at h
  unfold readLine at h
  split at h
  · cases h
  · rename_i l rest hs
    obtain ⟨hfree, rfl⟩ := eq_of_splitLine? hs
    split at h
    · cases h
    · rename_i line hr
      obtain ⟨_, rfl, method, target, version, ⟨hm, ht, hv⟩, rfl, rfl⟩ :=
        RequestLine.read_eq_ok_iff.mp hr
      obtain ⟨lines, rest', hlines, rfl⟩ := exists_headBytes_of_readHeaders h
      rw [readHeaders_headBytes hlines] at h
      obtain ⟨body, rest, hframed, rfl⟩ := framed_of_endHead h
      refine ⟨⟨method, target, version, lines, body⟩, rest,
        ⟨hm, ht, hv, hfree, hlines, hframed⟩, ?_⟩
      rw [RequestText.bytes_append]
      rfl

structure Holds (p : Parser) (t : RequestText) : Prop where
  methodToken : p.methodToken = t.method
  path : p.path = Path.normalize t.target
  version : p.version = t.version
  content : p.content = t.body
  fields : p.fields.fields = Headers.lastSpelled t.fields
  header : ∀ name, p.header? name = Headers.last? t.fields name

theorem holds_finished (t : RequestText) : (finished t).Holds t where
  methodToken := rfl
  path := rfl
  version := rfl
  content := rfl
  fields := Headers.fields_putAll_empty t.fields
  header := fun name => Headers.get?_putAll_empty t.fields name

/-- A fresh parser completes, and leaves `r`, exactly on a valid request that `r`
follows.  There is one such request, and its parts are what the parser holds. -/
theorem parse_complete_iff (capacity : Nat) (s r : List UInt8) :
    let parsed := start.parse ((Buffer.ofCapacity capacity).append s)
    (parsed.2.1 = .ok .complete ∧ parsed.2.2.unread = r ↔
        ∃ t : RequestText, t.Valid ∧ s = t.bytes ++ r) ∧
      ∀ t : RequestText, t.Valid → s = t.bytes ++ r →
        parsed.1.Holds t ∧
          ∀ (u : RequestText) (r' : List UInt8), u.Valid → s = u.bytes ++ r' → u = t ∧ r' = r := by
  intro parsed
  have hb := Buffer.wellFormed_ofCapacity capacity
  have hu : ((Buffer.ofCapacity capacity).append s).unread = s := by
    rw [Buffer.unread_append hb, Buffer.unread_ofCapacity, List.nil_append]
  have hparser : parsed.1 = (start.read s).parser := congrArg (fun i => (start.read i).parser) hu
  have houtcome : parsed.2.1 = (start.read s).outcome :=
    congrArg (fun i => (start.read i).outcome) hu
  have hrest : parsed.2.2.unread = (start.read s).rest :=
    (unread_parse start (hb.append s)).trans (congrArg (fun i => (start.read i).rest) hu)
  rw [houtcome, hrest, hparser]
  refine ⟨⟨?_, ?_⟩, ?_⟩
  · rintro ⟨hc, rfl⟩
    obtain ⟨t, rest, ht, hs⟩ := exists_valid_of_read hc
    refine ⟨t, ht, ?_⟩
    rw [hs, read_of_valid ht]
  · rintro ⟨t, ht, rfl⟩
    rw [read_of_valid ht]
    exact ⟨rfl, rfl⟩
  · rintro t ht rfl
    rw [read_of_valid ht]
    exact ⟨holds_finished t, fun u r' hu he => hu.unique ht he.symm⟩

end Parser
end EventHttp
