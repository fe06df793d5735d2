import EventHttp.Message.ResponseReader
import EventHttp.Proofs.Parser.RequestBytes

/-! Responses one behind the other.  A head has no blank line before its last, and states how
many bytes follow it, so a client that reads by these rules gets back the responses as they
were made, and nothing is left, whatever the bodies hold. -/

namespace EventHttp

namespace Utf8

theorem toNat_of_mem_encodeChar {c : Char} {b : UInt8} (h : b ∈ encodeChar c) :
    b.toNat = c.toNat ∨ 0x80 ≤ b.toNat := by
  have hc : c.toNat < 0xD800 ∨ 0xDFFF < c.toNat ∧ c.toNat < 0x110000 := c.valid
  have hbyte {n : Nat} (hn : n < 256) (hb : b = UInt8.ofNat n) : b.toNat = n := by
    rw [hb, toNat_byte hn]
  simp only [encodeChar] at h
  split at h
  · exact Or.inl (hbyte (by omega) (List.mem_singleton.mp h))
  · refine Or.inr ?_
    split at h
    · simp only [List.mem_cons, List.not_mem_nil, or_false] at h
      rcases h with h | h <;> have := hbyte (by omega) h <;> omega
    · split at h <;> simp only [List.mem_cons, List.not_mem_nil, or_false] at h
      · rcases h with h | h | h <;> have := hbyte (by omega) h <;> omega
      · rcases h with h | h | h | h <;> have := hbyte (by omega) h <;> omega

theorem mem_of_cr_mem_encode {cs : List Char} (h : cr ∈ encode cs) : '\r' ∈ cs := by
  obtain ⟨c, hc, hb⟩ := List.mem_flatMap.mp h
  have hcode : c.toNat = '\r'.toNat := by
    rcases toNat_of_mem_encodeChar hb with he | hle
    · exact he.symm
    · exact absurd hle (by decide)
  exact Char.toNat_inj.mp hcode ▸ hc

end Utf8

theorem not_crlf_infix_bytesOf {line : String} (h : '\r' ∉ line.toList) :
    ¬ crlf <:+: bytesOf line := by
  intro hi
  exact h (Utf8.mem_of_cr_mem_encode (hi.subset List.mem_cons_self))

theorem Decimal.cr_not_mem_text (n : Nat) : '\r' ∉ (text n).toList := by
  rw [text, String.toList_ofList]
  intro h
  have hdigit := (natural?_eq_some_iff.mp (natural?_digits n)).2.1 _ h
  exact absurd hdigit (by decide)

/-- Whether a line ends where it is meant to, and does not look like the end of a head. -/
def IsHeadLine (line : String) : Prop :=
  ¬ crlf <:+: bytesOf line ∧ line ≠ ""

theorem readLines?_headBytes {lines : List String} (h : ∀ line ∈ lines, IsHeadLine line)
    (rest : List UInt8) :
    readLines? (RequestText.headBytes lines ++ rest) = some (lines.map bytesOf, rest) := by
  induction lines with
  | nil =>
    have hblank : splitLine? (RequestText.headBytes [] ++ rest) = some ([], rest) :=
      splitLine?_append_crlf (by simp [crlf]) rest
    rw [readLines?]
    split <;> simp_all
  | cons line lines ih =>
    obtain ⟨hfree, hne⟩ := h line List.mem_cons_self
    have hbytes : bytesOf line ≠ [] := fun he =>
      hne (RequestText.bytesOf_inj (b := "") he)
    have hsplit : splitLine? (RequestText.headBytes (line :: lines) ++ rest) =
        some (bytesOf line, RequestText.headBytes lines ++ rest) := by
      rw [RequestText.headBytes_cons]
      exact splitLine?_append_crlf hfree _
    have hrest := ih fun l hl => h l (List.mem_cons_of_mem line hl)
    rw [readLines?]
    split <;> simp_all

def Status.line (s : Status) : String :=
  "HTTP/1.1 " ++ s.text

namespace ResponseHead

def keepAliveValue : Option Nat → String
  | some secs => "max=" ++ Decimal.text keepAliveMax ++ ", timeout=" ++ Decimal.text secs
  | none => "max=" ++ Decimal.text keepAliveMax

def fields (h : ResponseHead) : List (String × String) :=
  (if h.keepAlive then
    [("Connection", "keep-alive"), ("Keep-Alive", keepAliveValue h.keepAliveSecs)]
  else [("Connection", "close")]) ++
    [("Content-Type", h.contentType), ("Content-Length", Decimal.text h.contentLength)]

theorem lines_eq (h : ResponseHead) :
    h.lines = h.status.line :: h.fields.map Headers.lineOf ++ [""] := by
  obtain ⟨status, keepAlive, secs, contentType, contentLength⟩ := h
  cases keepAlive with
  | false => simp [lines, connectionLines, fields, Headers.lineOf, Status.line]
  | true =>
    cases secs <;>
      simp [lines, connectionLines, fields, keepAliveValue, Headers.lineOf, Status.line,
        ← String.append_assoc]

theorem render_eq (h : ResponseHead) :
    h.render = RequestText.headBytes (h.status.line :: h.fields.map Headers.lineOf) := by
  rw [render, lines_eq, List.flatMap_append, RequestText.headBytes]
  rfl

theorem readStatus?_line (s : Status) : readStatus? (bytesOf s.line) = some s := by
  cases s <;> decide +kernel

theorem readTimeout?_keepAliveValue (secs : Option Nat) :
    readTimeout? (keepAliveValue secs) = secs := by
  cases secs with
  | none => decide +kernel
  | some secs =>
    have hlist : (keepAliveValue (some secs)).toList =
        ("max=" ++ Decimal.text keepAliveMax).toList ++
          ',' :: (" timeout".toList ++ '=' :: Decimal.digits secs) := by
      simp [keepAliveValue, String.toList_append, Decimal.text]
    have hcomma : splitFirst? ',' (keepAliveValue (some secs)).toList = some
        (("max=" ++ Decimal.text keepAliveMax).toList, " timeout".toList ++
          '=' :: Decimal.digits secs) :=
      splitFirst?_eq_some_iff.mpr ⟨by decide +kernel, hlist⟩
    have hequals : splitFirst? '=' (" timeout".toList ++ '=' :: Decimal.digits secs) =
        some (" timeout".toList, Decimal.digits secs) :=
      splitFirst?_eq_some_iff.mpr ⟨by decide +kernel, rfl⟩
    simp only [readTimeout?, hcomma, Option.bind_eq_bind, Option.bind_some, hequals,
      Decimal.natural?_digits]

theorem cr_not_mem_keepAliveValue (secs : Option Nat) : '\r' ∉ (keepAliveValue secs).toList := by
  have hmax := Decimal.cr_not_mem_text keepAliveMax
  cases secs with
  | none => simp [keepAliveValue, String.toList_append, hmax]
  | some secs => simp [keepAliveValue, String.toList_append, hmax, Decimal.cr_not_mem_text secs]

theorem mem_fields_iff {h : ResponseHead} {field : String × String} : field ∈ h.fields ↔
    h.keepAlive = true ∧ (field = ("Connection", "keep-alive") ∨
      field = ("Keep-Alive", keepAliveValue h.keepAliveSecs)) ∨
    h.keepAlive = false ∧ field = ("Connection", "close") ∨
    field = ("Content-Type", h.contentType) ∨
    field = ("Content-Length", Decimal.text h.contentLength) := by
  unfold fields
  cases h.keepAlive <;> simp [or_assoc]

theorem colon_not_mem_name (h : ResponseHead) :
    ∀ field ∈ h.fields, ':' ∉ field.1.toList := by
  intro field hf
  rcases mem_fields_iff.mp hf with ⟨-, rfl | rfl⟩ | ⟨-, rfl⟩ | rfl | rfl <;> dsimp only <;> decide

theorem isHeadLine_lineOf {h : ResponseHead} (hct : '\r' ∉ h.contentType.toList) :
    ∀ field ∈ h.fields, IsHeadLine (Headers.lineOf field) := by
  have hline {name value : String} (hname : '\r' ∉ name.toList) (hvalue : '\r' ∉ value.toList) :
      IsHeadLine (Headers.lineOf (name, value)) := by
    refine ⟨not_crlf_infix_bytesOf ?_, fun he => ?_⟩
    · simp [Headers.toList_lineOf, hname, hvalue]
    · have hnil := congrArg String.toList he
      simp [Headers.toList_lineOf] at hnil
  intro field hf
  rcases mem_fields_iff.mp hf with ⟨-, rfl | rfl⟩ | ⟨-, rfl⟩ | rfl | rfl
  · exact hline (by decide) (by decide)
  · exact hline (by decide) (cr_not_mem_keepAliveValue h.keepAliveSecs)
  · exact hline (by decide) (by decide)
  · exact hline (by decide) hct
  · exact hline (by decide) (Decimal.cr_not_mem_text h.contentLength)

theorem isHeadLine_line (s : Status) : IsHeadLine s.line :=
  ⟨not_crlf_infix_bytesOf (by cases s <;> decide +kernel), by cases s <;> decide +kernel⟩

def received (h : ResponseHead) : ResponseHead :=
  { h with keepAliveSecs := if h.keepAlive then h.keepAliveSecs else none }

theorem mapM_read_fields {fields : List (String × String)}
    (h : ∀ field ∈ fields, ':' ∉ field.1.toList) :
    ((fields.map Headers.lineOf).map bytesOf).mapM (fun line => (Headers.read line).toOption) =
      some fields := by
  induction fields with
  | nil => rfl
  | cons field fields ih =>
    have hcolon : ':' ∈ (Headers.lineOf field).toList := by simp [Headers.toList_lineOf]
    have hread : Headers.read (bytesOf (Headers.lineOf field)) = .ok field := by
      rw [Headers.read_bytesOf hcolon, Headers.fieldOf_lineOf (h field List.mem_cons_self)]
    rw [List.map_cons, List.map_cons, List.mapM_cons, hread,
      ih fun f hf => h f (List.mem_cons_of_mem field hf)]
    rfl

theorem read?_render {h : ResponseHead} (hct : '\r' ∉ h.contentType.toList)
    (rest : List UInt8) : read? (h.render ++ rest) = some (h.received, rest) := by
  have hlines : ∀ line ∈ h.status.line :: h.fields.map Headers.lineOf, IsHeadLine line := by
    intro line hl
    rcases List.mem_cons.mp hl with rfl | hl
    · exact isHeadLine_line h.status
    · obtain ⟨field, hf, rfl⟩ := List.mem_map.mp hl
      exact isHeadLine_lineOf hct field hf
  have hread := mapM_read_fields h.colon_not_mem_name
  have htext : (Decimal.text h.contentLength).toList = Decimal.digits h.contentLength :=
    String.toList_ofList
  rw [read?, render_eq, readLines?_headBytes hlines]
  simp only [Option.bind_eq_bind, Option.bind_some, List.map_cons, List.head?_cons,
    readStatus?_line, List.tail_cons, hread]
  obtain ⟨status, keepAlive, secs, contentType, contentLength⟩ := h
  cases keepAlive <;>
    simp_all [fields, List.lookup_cons, received, readTimeout?_keepAliveValue]

end ResponseHead

theorem length_readLines?_lt {input rest : List UInt8} {lines : List (List UInt8)}
    (h : readLines? input = some (lines, rest)) : rest.length < input.length := by
  fun_induction readLines? input generalizing lines with
  | case1 => cases h
  | case2 input left hs =>
    obtain ⟨-, rfl⟩ := Prod.mk.inj (Option.some.inj h)
    exact Parser.length_splitLine?_lt hs
  | case3 input line left _ hs ih =>
    obtain ⟨⟨lines', rest'⟩, hr, he⟩ := Option.map_eq_some_iff.mp h
    obtain ⟨-, rfl⟩ := Prod.mk.inj he
    exact (ih hr).trans (Parser.length_splitLine?_lt hs)

namespace Response

theorem length_read?_lt {input rest : List UInt8} {r : Response}
    (h : read? input = some (r, rest)) : rest.length < input.length := by
  simp only [read?, ResponseHead.read?, Option.bind_eq_bind, Option.bind_eq_some_iff] at h
  obtain ⟨⟨head, left⟩, hhead, h⟩ := h
  obtain ⟨⟨lines, left'⟩, hlines, hhead⟩ := hhead
  have hleft : left' = left := by grind
  have hlt := length_readLines?_lt hlines
  split at h
  · cases h
  · obtain ⟨-, rfl⟩ := Prod.mk.inj (Option.some.inj h)
    rw [List.length_drop]
    exact (Nat.sub_le _ _).trans_lt (hleft ▸ hlt)

def readAll (input : List UInt8) : List Response × List UInt8 :=
  match _h : read? input with
  | none => ([], input)
  | some (r, rest) => ((readAll rest).map (r :: ·) id)
termination_by input.length
decreasing_by exact length_read?_lt _h

/-- What is made with the length of its own body, and a content type that ends no line. -/
inductive Made : Response → Prop
  | make (status : Status) {contentType : String} (body : List UInt8) (keepAlive : Bool)
    (secs : Option Nat) (h : '\r' ∉ contentType.toList ∧ '\n' ∉ contentType.toList) :
    Made (.make status contentType body keepAlive secs)

def received (r : Response) : Response :=
  { r with head := r.head.received }

def written (r : Response) (b : Buffer) : List UInt8 :=
  (r.head.writeTo b).unread.drop b.unread.length ++ r.body

theorem written_eq_render {b : Buffer} (h : b.WellFormed) (r : Response) :
    r.written b = r.render := by
  rw [written, ResponseHead.unread_writeTo h, List.drop_left, render]

theorem Made.read?_render {r : Response} (h : r.Made) (rest : List UInt8) :
    read? (r.render ++ rest) = some (r.received, rest) := by
  obtain ⟨hct, hlength⟩ : '\r' ∉ r.head.contentType.toList ∧
      r.head.received.contentLength = r.body.length := by
    obtain ⟨status, body, keepAlive, secs, hct⟩ := h
    exact ⟨hct.1, rfl⟩
  have hall : ¬ (r.body ++ rest).length < r.body.length := by simp
  rw [render, List.append_assoc, read?, ResponseHead.read?_render hct]
  simp only [Option.bind_eq_bind, Option.bind_some, hlength, if_neg hall, List.take_left,
    List.drop_left, received]

theorem readAll_renders {rs : List Response} (h : ∀ r ∈ rs, r.Made) :
    readAll (rs.flatMap render) = (rs.map received, []) := by
  induction rs with
  | nil =>
    have hempty : read? [] = none := Option.eq_none_iff_forall_ne_some.mpr fun _ hr =>
      absurd (length_read?_lt hr) (by simp)
    rw [List.flatMap_nil, readAll]
    split <;> simp_all
  | cons r rs ih =>
    have hfirst := (h r List.mem_cons_self).read?_render (rs.flatMap render)
    have hrest := ih fun q hq => h q (List.mem_cons_of_mem r hq)
    rw [List.flatMap_cons, readAll]
    split <;> simp_all

/-- A client reads back the responses that were made, in their order, with nothing left of
the stream, whatever buffers their heads were written into. -/
theorem readAll_written {writes : List (Buffer × Response)}
    (h : ∀ w ∈ writes, w.1.WellFormed ∧ w.2.Made) :
    readAll (writes.flatMap fun w => w.2.written w.1) = (writes.map (·.2.received), []) ∧
      ∀ w ∈ writes, (w.2.head.writeTo w.1).unread.take w.1.unread.length = w.1.unread := by
  have hwritten : (writes.flatMap fun w => w.2.written w.1) =
      (writes.map (·.2)).flatMap render := by
    rw [List.flatMap_map, List.flatMap_def, List.flatMap_def]
    exact congrArg _ (List.map_congr_left fun w hw => written_eq_render (h w hw).1 w.2)
  have hmade : ∀ r ∈ writes.map (·.2), r.Made := by grind
  have hread := readAll_renders hmade
  refine ⟨by rw [hwritten, hread, List.map_map]; rfl, fun w hw => ?_⟩
  rw [ResponseHead.unread_writeTo (h w hw).1, List.take_left]

/-- The first body begins with a blank line and goes on as a head would; the idle time of the
second response is not sent. -/
theorem readAll_written_headlike :
    let headlike := bytesOf "\r\n\r\nHTTP/1.1 200 OK\r\nContent-Length: 9\r\n\r\n"
    let used := (Buffer.empty.append (bytesOf "old head")).retrieve 4
    readAll ((make .ok "text/plain" headlike true (some 30)).written used ++
        (make .notFound "text/html" [cr, lf, cr, lf, 0xFF] false (some 30)).written used) =
      ([make .ok "text/plain" headlike true (some 30),
        make .notFound "text/html" [cr, lf, cr, lf, 0xFF] false none], []) := by
  intro headlike used
  have hused : used.WellFormed := ((Buffer.wellFormed_ofCapacity _).append _).retrieve 4
  have hkept : Made (make .ok "text/plain" headlike true (some 30)) := .make _ _ _ _ (by decide)
  have hclosed : Made (make .notFound "text/html" [cr, lf, cr, lf, 0xFF] false (some 30)) :=
    .make _ _ _ _ (by decide)
  have hwrites : ∀ w ∈ [(used, make .ok "text/plain" headlike true (some 30)),
      (used, make .notFound "text/html" [cr, lf, cr, lf, 0xFF] false (some 30))],
      w.1.WellFormed ∧ w.2.Made := by simp [hused, hkept, hclosed]
  have h := readAll_written hwrites
  have hreceived : (make .ok "text/plain" headlike true (some 30)).received =
      make .ok "text/plain" headlike true (some 30) := rfl
  have herased : (make .notFound "text/html" [cr, lf, cr, lf, 0xFF] false (some 30)).received =
      make .notFound "text/html" [cr, lf, cr, lf, 0xFF] false none := rfl
  simpa [hreceived, herased] using h.1

end Response
end EventHttp
