import EventHttp.Message.Parser
import EventHttp.Proofs.Headers
import EventHttp.Proofs.LineEnd
import EventHttp.Proofs.Numeral
import EventHttp.Proofs.Utf8

/-! Requests as they are written: a first line, the lines of the head, a blank line
and a body.  `RequestText.Valid` is the grammar, and a byte string begins with at
most one valid request. -/

namespace EventHttp

structure RequestText where
  method : String
  target : String
  version : String
  lines : List String
  body : List UInt8

def RequestLine.text (method target version : String) : String :=
  method ++ " " ++ target ++ " HTTP/" ++ version

def Headers.fieldOf (line : String) : String × String :=
  let after := (line.toList.dropWhile (· ≠ ':')).tail
  (String.ofList (line.toList.takeWhile (· ≠ ':')),
    String.ofList (if after.head? = some ' ' then after.tail else after))

theorem RequestLine.toList_text (method target version : String) :
    (text method target version).toList = method.toList ++ ' ' :: (target.toList ++
      ' ' :: 'H' :: 'T' :: 'T' :: 'P' :: '/' :: version.toList) := by
  simp [text, String.toList_append]

namespace RequestText

def firstLine (t : RequestText) : String :=
  RequestLine.text t.method t.target t.version

def headBytes (lines : List String) : List UInt8 :=
  (lines.flatMap fun line => bytesOf line ++ crlf) ++ crlf

def bytes (t : RequestText) : List UInt8 :=
  bytesOf t.firstLine ++ crlf ++ headBytes t.lines ++ t.body

def fields (t : RequestText) : List (String × String) :=
  t.lines.map Headers.fieldOf

/-- A `GET` has no body; a `POST` has one of the length that its last
`Content-Length` field spells. -/
def Framed (method : String) (fields : List (String × String)) (body : List UInt8) : Prop :=
  (method = "GET" ∧ body = []) ∨
    (method = "POST" ∧ ∃ value, Headers.last? fields "Content-Length" = some value ∧
      Decimal.Spells (Blank.trim value.toList) body.length ∧ body.length < 2 ^ 64)

def HeaderLine (line : String) : Prop :=
  ¬ crlf <:+: bytesOf line ∧ ':' ∈ line.toList

/-- The grammar of requests. -/
structure Valid (t : RequestText) : Prop where
  method : ' ' ∉ t.method.toList
  target : ' ' ∉ t.target.toList
  version : ' ' ∉ t.version.toList
  firstLine : ¬ crlf <:+: bytesOf t.firstLine
  lines : ∀ line ∈ t.lines, HeaderLine line
  framed : Framed t.method t.fields t.body

theorem HeaderLine.bytes_ne_nil {line : String} (h : HeaderLine line) : bytesOf line ≠ [] := by
  intro hb
  have hl : line.toList = [] := Utf8.encode_inj hb
  exact absurd (hl ▸ h.2) (by simp)

theorem headBytes_cons (line : String) (lines : List String) (rest : List UInt8) :
    headBytes (line :: lines) ++ rest = bytesOf line ++ crlf ++ (headBytes lines ++ rest) := by
  simp [headBytes]

theorem bytesOf_inj {a b : String} (h : bytesOf a = bytesOf b) : a = b :=
  String.toList_inj.mp (Utf8.encode_inj h)

theorem headBytes_inj {a b : List String} (ha : ∀ line ∈ a, HeaderLine line)
    (hb : ∀ line ∈ b, HeaderLine line) {x y : List UInt8}
    (h : headBytes a ++ x = headBytes b ++ y) : a = b ∧ x = y := by
  have hnil : ∀ z : List UInt8, splitLine? (headBytes [] ++ z) = some ([], z) :=
    fun z => splitLine?_append_crlf (by simp [crlf]) z
  have hcons : ∀ (line : String) (lines : List String) (z : List UInt8), HeaderLine line →
      splitLine? (headBytes (line :: lines) ++ z) = some (bytesOf line, headBytes lines ++ z) := by
    intro line lines z hline
    rw [headBytes_cons]
    exact splitLine?_append_crlf hline.1 _
  -- no line of a head is blank, so both heads end at the same blank line
  induction a generalizing b with
  | nil =>
    cases b with
    | nil => exact ⟨rfl, List.append_cancel_left h⟩
    | cons l b =>
      have hl := hb l List.mem_cons_self
      have he := (hnil x).symm.trans ((congrArg splitLine? h).trans (hcons l b y hl))
      exact (hl.bytes_ne_nil (Prod.mk.inj (Option.some.inj he)).1.symm).elim
  | cons k a ih =>
    have hk := ha k List.mem_cons_self
    cases b with
    | nil =>
      have he := (hcons k a x hk).symm.trans ((congrArg splitLine? h).trans (hnil y))
      exact (hk.bytes_ne_nil (Prod.mk.inj (Option.some.inj he)).1).elim
    | cons l b =>
      have hl := hb l List.mem_cons_self
      have he := (hcons k a x hk).symm.trans ((congrArg splitLine? h).trans (hcons l b y hl))
      obtain ⟨hline, hrest⟩ := Prod.mk.inj (Option.some.inj he)
      obtain ⟨rfl, hxy⟩ := ih (fun m hm => ha m (List.mem_cons_of_mem k hm))
        (fun m hm => hb m (List.mem_cons_of_mem l hm)) hrest
      exact ⟨by rw [bytesOf_inj hline], hxy⟩

theorem Framed.length_eq {method : String} {fields : List (String × String)}
    {body other : List UInt8} (h : Framed method fields body) (ho : Framed method fields other) :
    body.length = other.length := by
  rcases h with ⟨hm, hb⟩ | ⟨hm, value, hv, hs, hl⟩ <;>
    rcases ho with ⟨hm', hb'⟩ | ⟨hm', value', hv', hs', hl'⟩
  · rw [hb, hb']
  · exact absurd (hm.symm.trans hm') (by decide)
  · exact absurd (hm.symm.trans hm') (by decide)
  · have he : value = value' := Option.some.inj (hv.symm.trans hv')
    subst he
    have hn := Decimal.unsigned?_eq_some_iff.mpr ⟨hs, hl⟩
    have hn' := Decimal.unsigned?_eq_some_iff.mpr ⟨hs', hl'⟩
    exact Option.some.inj (hn.symm.trans hn')

theorem bytes_append (t : RequestText) (rest : List UInt8) :
    t.bytes ++ rest = bytesOf t.firstLine ++ crlf ++ (headBytes t.lines ++ (t.body ++ rest)) := by
  rw [bytes, List.append_assoc, List.append_assoc]

theorem Valid.splitLine?_bytes {t : RequestText} (h : t.Valid) (rest : List UInt8) :
    splitLine? (t.bytes ++ rest) =
      some (bytesOf t.firstLine, headBytes t.lines ++ (t.body ++ rest)) := by
  rw [bytes_append]
  exact splitLine?_append_crlf h.firstLine _

theorem Valid.unique {t u : RequestText} (ht : t.Valid) (hu : u.Valid) {r s : List UInt8}
    (h : t.bytes ++ r = u.bytes ++ s) : t = u ∧ r = s := by
  have hparts : ∀ v : RequestText, v.Valid →
      splitFirst? ' ' v.firstLine.toList = some (v.method.toList, v.target.toList ++
        ' ' :: 'H' :: 'T' :: 'T' :: 'P' :: '/' :: v.version.toList) := by
    intro v hv
    exact splitFirst?_eq_some_iff.mpr ⟨hv.method, RequestLine.toList_text _ _ _⟩
  have he := (ht.splitLine?_bytes r).symm.trans
    ((congrArg splitLine? h).trans (hu.splitLine?_bytes s))
  obtain ⟨hline, hrest⟩ := Prod.mk.inj (Option.some.inj he)
  have hfirst : t.firstLine = u.firstLine := bytesOf_inj hline
  have hm := (hparts t ht).symm.trans ((congrArg (fun l => splitFirst? ' ' l.toList) hfirst).trans
    (hparts u hu))
  obtain ⟨hmethod, hm⟩ := Prod.mk.inj (Option.some.inj hm)
  have hp := (splitFirst?_eq_some_iff.mpr ⟨ht.target, rfl⟩).symm.trans
    ((congrArg (splitFirst? ' ') hm).trans (splitFirst?_eq_some_iff.mpr ⟨hu.target, rfl⟩))
  obtain ⟨htarget, hv⟩ := Prod.mk.inj (Option.some.inj hp)
  have hversion : t.version.toList = u.version.toList := by simpa using hv
  obtain ⟨hlines, hbody⟩ := headBytes_inj ht.lines hu.lines hrest
  have hmethod : t.method = u.method := String.toList_inj.mp hmethod
  have hfields : t.fields = u.fields := congrArg (List.map Headers.fieldOf) hlines
  -- the bodies have one length since the fields before them are the same
  have hlength : t.body.length = u.body.length :=
    ht.framed.length_eq (hmethod ▸ hfields ▸ hu.framed)
  obtain ⟨hbody, hr⟩ := List.append_inj hbody hlength
  refine ⟨?_, hr⟩
  cases t
  cases u
  rw [RequestText.mk.injEq]
  exact ⟨hmethod, String.toList_inj.mp htarget, String.toList_inj.mp hversion, hlines, hbody⟩

end RequestText
end EventHttp
