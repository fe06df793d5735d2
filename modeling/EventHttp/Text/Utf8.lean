import EventHttp.Text.Scan

/-! UTF-8.  Bytes are read as pieces: characters, and the longest ill-formed
stretches that could still have begun a character. -/

namespace EventHttp.Utf8

/-- One character, or bytes that begin no character. -/
inductive Piece where
  | char (c : Char)
  | bad (bytes : List UInt8)
  deriving DecidableEq, Repr

def isTail (b : UInt8) : Bool :=
  0x80 ≤ b && b ≤ 0xBF

structure Lead where
  value : Nat
  following : Nat
  low : UInt8
  high : UInt8
  deriving DecidableEq, Repr

def lead? (b : UInt8) : Option Lead :=
  if b < 0xC2 then none
  else if b < 0xE0 then some ⟨b.toNat - 0xC0, 1, 0x80, 0xBF⟩
  else if b < 0xF0 then
    some ⟨b.toNat - 0xE0, 2, if b = 0xE0 then 0xA0 else 0x80, if b = 0xED then 0x9F else 0xBF⟩
  else if b < 0xF5 then
    some ⟨b.toNat - 0xF0, 3, if b = 0xF0 then 0x90 else 0x80, if b = 0xF4 then 0x8F else 0xBF⟩
  else none

def complete : Nat → Nat → List UInt8 → List UInt8 → Piece × List UInt8
  | 0, v, _, rest => (.char (Char.ofNat v), rest)
  | _ + 1, _, taken, [] => (.bad taken, [])
  | n + 1, v, taken, b :: rest =>
    if isTail b then complete n (v * 64 + (b.toNat - 0x80)) (taken ++ [b]) rest
    else (.bad taken, b :: rest)

def next : List UInt8 → Option (Piece × List UInt8)
  | [] => none
  | b :: rest =>
    if b < 0x80 then some (.char (Char.ofNat b.toNat), rest)
    else match lead? b, rest with
      | none, rest => some (.bad [b], rest)
      | some _, [] => some (.bad [b], [])
      | some l, c :: rest =>
        if l.low ≤ c && c ≤ l.high then
          some (complete (l.following - 1) (l.value * 64 + (c.toNat - 0x80)) [b, c] rest)
        else some (.bad [b], c :: rest)

theorem length_complete_le (n v : Nat) (taken rest : List UInt8) :
    (complete n v taken rest).2.length ≤ rest.length := by
  induction n generalizing v taken rest with
  | zero => simp [complete]
  | succ n ih =>
    cases rest with
    | nil => simp [complete]
    | cons b rest =>
      rw [complete]
      split
      · exact Nat.le_trans (ih _ _ _) (by simp)
      · simp

theorem length_next_lt {s r : List UInt8} {p : Piece} (h : next s = some (p, r)) :
    r.length < s.length := by
  cases s with
  | nil => simp [next] at h
  | cons b rest =>
    simp only [next] at h
    split at h
    · simp at h; simp [← h.2]
    · split at h
      · simp at h; simp [← h.2]
      · simp at h; simp [← h.2]
      · rename_i l c rest _
        split at h
        · have := length_complete_le (l.following - 1) (l.value * 64 + (c.toNat - 0x80)) [b, c] rest
          simp at h
          rw [h] at this
          simp at this ⊢
          omega
        · simp at h; simp [← h.2]

def scan : Scan UInt8 Piece := ⟨next, length_next_lt⟩

def pieces (s : List UInt8) : List Piece :=
  scan.tokens s

def Piece.char? : Piece → Option Char
  | .char c => some c
  | .bad _ => none

def decode? (s : List UInt8) : Option (List Char) :=
  (pieces s).mapM Piece.char?

def decodeLossy (s : List UInt8) : List Char :=
  (pieces s).map fun p => p.char?.getD '\uFFFD'

def encodeChar (c : Char) : List UInt8 :=
  let n := c.toNat
  if n < 0x80 then [.ofNat n]
  else if n < 0x800 then [.ofNat (0xC0 + n / 64), .ofNat (0x80 + n % 64)]
  else if n < 0x10000 then
    [.ofNat (0xE0 + n / 4096), .ofNat (0x80 + n / 64 % 64), .ofNat (0x80 + n % 64)]
  else
    [.ofNat (0xF0 + n / 262144), .ofNat (0x80 + n / 4096 % 64), .ofNat (0x80 + n / 64 % 64),
      .ofNat (0x80 + n % 64)]

def encode (cs : List Char) : List UInt8 :=
  cs.flatMap encodeChar

@[simp] theorem encode_nil : encode [] = [] := rfl

@[simp] theorem encode_append (a b : List Char) : encode (a ++ b) = encode a ++ encode b := by
  simp [encode]

end EventHttp.Utf8

namespace EventHttp

def bytesOf (s : String) : List UInt8 :=
  Utf8.encode s.toList

end EventHttp
