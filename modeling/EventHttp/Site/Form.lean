import EventHttp.Text.Utf8
import EventHttp.Text.Hex
import EventHttp.Text.Blank
import EventHttp.Text.Split
import EventHttp.Text.Caseless

/-! Forms in the encoding `application/x-www-form-urlencoded`. -/

namespace EventHttp.Form

def mediaType : String := "application/x-www-form-urlencoded"

/-- One byte of the decoded text.  A percent sign that no two digits follow
stands for itself. -/
def nextByte : List UInt8 → Option (UInt8 × List UInt8)
  | [] => none
  | b :: rest =>
    if b = 0x2B then some (0x20, rest)
    else if b = 0x25 then
      match rest with
      | x :: y :: after =>
        match Hex.value? x, Hex.value? y with
        | some hi, some lo => some (.ofNat (hi * 16 + lo), after)
        | _, _ => some (b, rest)
      | _ => some (b, rest)
    else some (b, rest)

theorem length_nextByte_lt {s r : List UInt8} {b : UInt8} (h : nextByte s = some (b, r)) :
    r.length < s.length := by
  unfold nextByte at h
  repeat' split at h
  all_goals simp at h
  all_goals
    obtain ⟨_, rfl⟩ := h
    simp
  all_goals omega

def scan : Scan UInt8 UInt8 := ⟨nextByte, length_nextByte_lt⟩

def unescape (s : List UInt8) : List UInt8 :=
  scan.tokens s

def decode (s : List UInt8) : String :=
  String.ofList (Utf8.decodeLossy (unescape s))

def decodePair (s : List UInt8) : String × String :=
  match splitFirst? 0x3D s with
  | some (name, value) => (decode name, decode value)
  | none => (decode s, "")

def pairs (body : List UInt8) : List (String × String) :=
  ((splitAll 0x26 body).filter (· ≠ [])).map decodePair

def value? (form : List (String × String)) (name : String) : Option String :=
  form.reverse.lookup name

def isForm (contentType : String) : Bool :=
  caselessEq (String.ofList (Blank.trim (contentType.toList.takeWhile (· ≠ ';')))) mediaType

end EventHttp.Form
