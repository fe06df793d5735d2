import EventHttp.Proofs.Utf8
import EventHttp.Text.Escaped
import EventHttp.Text.Numeral

/-! What an escaped text tells.  Reading its escapes back gives every byte that was escaped, so
two byte strings never look alike, and nothing in it ends the line. -/

namespace EventHttp

namespace Utf8

def Piece.bytes : Piece → List UInt8
  | .char c => encodeChar c
  | .bad bytes => bytes

variable {s r : List UInt8} {p : Piece}

theorem complete_eq_bad {n v : Nat} {taken rest bytes : List UInt8}
    (h : complete n v taken rest = (.bad bytes, r)) : taken ++ rest = bytes ++ r := by
  induction n generalizing v taken rest with
  | zero => cases h
  | succ n ih =>
    cases rest with
    | nil =>
      cases h
      rfl
    | cons b rest =>
      rw [complete] at h
      split at h
      · rw [← ih h, List.append_assoc, List.singleton_append]
      · cases h
        rfl

theorem next_eq_bad {bytes : List UInt8} (h : next s = some (.bad bytes, r)) : s = bytes ++ r := by
  cases s with
  | nil => cases h
  | cons b rest =>
    simp only [next] at h
    split at h
    · cases h
    · split at h
      · cases h
        rfl
      · cases h
        rfl
      · split at h
        · exact complete_eq_bad (Option.some.inj h)
        · cases h
          rfl

theorem next_eq_some (h : next s = some (p, r)) : s = p.bytes ++ r := by
  cases p with
  | char c => exact next_eq_char h
  | bad bytes => exact next_eq_bad h

theorem flatMap_bytes_pieces (s : List UInt8) : (pieces s).flatMap Piece.bytes = s := by
  induction hn : s.length using Nat.strongRecOn generalizing s with
  | ind n ih =>
    cases hs : next s with
    | none =>
      cases s with
      | nil => rw [pieces, scan.tokens_of_none rfl, List.flatMap_nil]
      | cons b s => exact (next_ne_none hs).elim
    | some token =>
      obtain ⟨p, r⟩ := token
      have hr : (pieces r).flatMap Piece.bytes = r := ih r.length (hn ▸ length_next_lt hs) r rfl
      rw [pieces, scan.tokens_of_some hs, List.flatMap_cons, ← pieces, hr, ← next_eq_some hs]

end Utf8

theorem Numeral.natural?_hexPair (b : UInt8) : natural? 16 (Hex.pair b) = some b.toNat := by
  have hb : b.toNat < 256 := UInt8.toNat_lt b
  have hdigit : ∀ n < 16, digit? 16 (Hex.digit n) = some n := by decide
  have hhigh := hdigit (b.toNat / 16) (by omega)
  have hlow := hdigit (b.toNat % 16) (by omega)
  have hsum : b.toNat / 16 * 16 + b.toNat % 16 = b.toNat := by omega
  simp [natural?, Hex.pair, hhigh, hlow, hsum]

namespace Escaped

def hidden : List Char := ['\r', '\n', '\t', '\x00']

def sign? : Char → Option UInt8
  | 'r' => some 0x0D
  | 'n' => some 0x0A
  | 't' => some 0x09
  | '\\' => some 0x5C
  | '0' => some 0x00
  | _ => none

def readEscape? : List Char → Option (UInt8 × List Char)
  | '\\' :: 'x' :: high :: low :: rest =>
    (Numeral.natural? 16 [high, low]).map fun n => (.ofNat n, rest)
  | '\\' :: c :: rest => (sign? c).map (·, rest)
  | _ => none

def readToken : List Char → Option (List UInt8 × List Char)
  | [] => none
  | c :: rest =>
    match readEscape? (c :: rest) with
    | some (b, rest) => some ([b], rest)
    | none => some (Utf8.encodeChar c, rest)

theorem length_readEscape?_lt {s r : List Char} {b : UInt8} (h : readEscape? s = some (b, r)) :
    r.length < s.length := by
  unfold readEscape? at h
  split at h
  · obtain ⟨n, -, he⟩ := Option.map_eq_some_iff.mp h
    cases he
    simp only [List.length_cons]
    omega
  · obtain ⟨b, -, he⟩ := Option.map_eq_some_iff.mp h
    cases he
    simp only [List.length_cons]
    omega
  · cases h

theorem length_readToken_lt {s r : List Char} {bytes : List UInt8}
    (h : readToken s = some (bytes, r)) : r.length < s.length := by
  cases s with
  | nil => cases h
  | cons c rest =>
    rw [readToken] at h
    split at h
    · rename_i hescape
      cases h
      exact length_readEscape?_lt hescape
    · cases h
      exact Nat.lt_succ_self _

def scan : Scan Char (List UInt8) := ⟨readToken, length_readToken_lt⟩

def unescape (text : String) : List UInt8 :=
  (scan.tokens text.toList).flatten

def Gives (cs : List Char) (bytes : List UInt8) : Prop :=
  ∀ rest, (scan.tokens (cs ++ rest)).flatten = bytes ++ (scan.tokens rest).flatten

theorem gives_of_readToken {cs : List Char} {bytes : List UInt8}
    (h : ∀ rest, readToken (cs ++ rest) = some (bytes, rest)) : Gives cs bytes := by
  intro rest
  rw [scan.tokens_of_some (h rest), List.flatten_cons]

theorem Gives.flatMap {α : Type} {write : α → List Char} {bytes : α → List UInt8}
    (h : ∀ a, Gives (write a) (bytes a)) (l : List α) :
    Gives (l.flatMap write) (l.flatMap bytes) := by
  induction l with
  | nil => exact fun rest => rfl
  | cons a l ih =>
    intro rest
    rw [List.flatMap_cons, List.flatMap_cons, List.append_assoc, List.append_assoc, h a, ih]

theorem readToken_of_readEscape? {s r : List Char} {b : UInt8}
    (h : readEscape? s = some (b, r)) : readToken s = some ([b], r) := by
  cases s with
  | nil => cases h
  | cons c rest => rw [readToken, h]

theorem readToken_of_ne {c : Char} (hc : c ≠ '\\') (rest : List Char) :
    readToken (c :: rest) = some (Utf8.encodeChar c, rest) := by
  have hnone : readEscape? (c :: rest) = none := by
    unfold readEscape?
    split
    · rename_i he
      exact (hc (List.cons.inj he).1).elim
    · rename_i he
      exact (hc (List.cons.inj he).1).elim
    · rfl
  rw [readToken, hnone]

theorem gives_escapeChar (c : Char) : Gives (escapeChar c) (Utf8.encodeChar c) := by
  fun_cases escapeChar c with
  | case1 hc | case2 _ hc | case3 _ _ hc | case4 _ _ _ hc | case5 _ _ _ _ hc =>
    subst hc
    exact gives_of_readToken fun rest => rfl
  | case6 _ _ _ hc => exact gives_of_readToken (readToken_of_ne hc)

theorem gives_escapeByte (b : UInt8) : Gives (escapeByte b) [b] := by
  refine gives_of_readToken fun rest => readToken_of_readEscape? ?_
  have hpair : Numeral.natural? 16 (Hex.pair b) = some b.toNat := Numeral.natural?_hexPair b
  show (Numeral.natural? 16 (Hex.pair b)).map _ = _
  rw [hpair, Option.map_some, UInt8.ofNat_toNat]
  rfl

theorem gives_escapePiece (p : Utf8.Piece) : Gives (escapePiece p) p.bytes := by
  cases p with
  | char c => exact gives_escapeChar c
  | bad bytes =>
    have hall := Gives.flatMap gives_escapeByte bytes
    rwa [List.flatMap_singleton' bytes] at hall

theorem unescape_escape (bytes : List UInt8) : unescape (escape bytes) = bytes := by
  have hall := Gives.flatMap gives_escapePiece (Utf8.pieces bytes) []
  have hnil : scan.tokens [] = [] := scan.tokens_of_none rfl
  rw [List.append_nil, hnil, List.flatten_nil, List.append_nil, Utf8.flatMap_bytes_pieces] at hall
  rw [unescape, escape, String.toList_ofList, hall]

theorem hidden_not_mem_escapeChar (c : Char) : ∀ d ∈ escapeChar c, d ∉ hidden := by
  fun_cases escapeChar c with
  | case1 | case2 | case3 | case4 | case5 => simp [hidden]
  | case6 hr hn ht _ hz =>
    intro d hd
    rw [List.mem_singleton.mp hd]
    simp [hidden, hr, hn, ht, hz]

theorem hidden_not_mem_escapeByte (b : UInt8) : ∀ d ∈ escapeByte b, d ∉ hidden := by
  have hb : b.toNat < 256 := UInt8.toNat_lt b
  have hdigit : ∀ n < 16, Hex.digit n ∉ hidden := by decide
  have hhigh := hdigit (b.toNat / 16) (by omega)
  have hlow := hdigit (b.toNat % 16) (by omega)
  simpa [escapeByte, Hex.pair, hhigh, hlow] using (show '\\' ∉ hidden ∧ 'x' ∉ hidden by decide)

theorem hidden_not_mem_escape (bytes : List UInt8) : ∀ d ∈ (escape bytes).toList, d ∉ hidden := by
  intro d hd
  rw [escape, String.toList_ofList] at hd
  obtain ⟨p, -, hd⟩ := List.mem_flatMap.mp hd
  cases p with
  | char c => exact hidden_not_mem_escapeChar c d hd
  | bad bytes =>
    obtain ⟨b, -, hd⟩ := List.mem_flatMap.mp hd
    exact hidden_not_mem_escapeByte b d hd

/-- Escaping loses nothing and stays on one line. -/
theorem escape_lossless :
    (∀ bytes, (∀ c ∈ (escape bytes).toList, c ∉ hidden) ∧ unescape (escape bytes) = bytes) ∧
      Function.Injective escape := by
  refine ⟨fun bytes => ⟨hidden_not_mem_escape bytes, unescape_escape bytes⟩, fun a b hab => ?_⟩
  rw [← unescape_escape a, hab, unescape_escape]

example : escape [0xFF] = "\\xff" ∧ escape (bytesOf "\\xff") = "\\\\xff" := by
  decide +kernel

end Escaped
end EventHttp
