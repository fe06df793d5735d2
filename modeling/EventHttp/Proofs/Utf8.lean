import EventHttp.Text.Utf8.RoundTrip

/-! The byte strings that are text.  Decoding succeeds on what encoding writes and
on nothing else, so a text has one spelling in bytes. -/

namespace EventHttp

namespace Utf8

theorem toNat_ofNat_char {n : Nat} (h : n < 0xD800 ∨ 0xDFFF < n ∧ n < 0x110000) :
    (Char.ofNat n).toNat = n := by
  have hv : n.isValidChar := h
  rw [Char.ofNat, dif_pos hv]
  rfl

theorem ofNat_byte {b : UInt8} {base : Nat} (h : base ≤ b.toNat) :
    b = .ofNat (base + (b.toNat - base)) := by
  rw [Nat.add_sub_cancel' h, UInt8.ofNat_toNat]

theorem encodeChar_one {n : Nat} (h : n < 0x80) : encodeChar (Char.ofNat n) = [.ofNat n] := by
  rw [encodeChar, toNat_ofNat_char (by omega)]
  exact if_pos h

theorem encodeChar_two {x k : Nat} (hl : 2 ≤ x) (hu : x < 32) (hk : k < 64) :
    encodeChar (Char.ofNat (x * 64 + k)) = [.ofNat (0xC0 + x), .ofNat (0x80 + k)] := by
  rw [encodeChar, toNat_ofNat_char (by omega)]
  rw [if_neg (by omega), if_pos (by omega), show (x * 64 + k) / 64 = x by omega,
    show (x * 64 + k) % 64 = k by omega]

theorem encodeChar_three {x k m : Nat} (hx : x < 16) (hk : k < 64) (hm : m < 64)
    (hlow : x = 0 → 32 ≤ k) (hhigh : x = 13 → k < 32) :
    encodeChar (Char.ofNat ((x * 64 + k) * 64 + m)) =
      [.ofNat (0xE0 + x), .ofNat (0x80 + k), .ofNat (0x80 + m)] := by
  rw [encodeChar, toNat_ofNat_char (by omega)]
  rw [if_neg (by omega), if_neg (by omega), if_pos (by omega),
    show ((x * 64 + k) * 64 + m) / 4096 = x by omega,
    show ((x * 64 + k) * 64 + m) / 64 % 64 = k by omega,
    show ((x * 64 + k) * 64 + m) % 64 = m by omega]

theorem encodeChar_four {x k m l : Nat} (hx : x < 5) (hk : k < 64) (hm : m < 64) (hl : l < 64)
    (hlow : x = 0 → 16 ≤ k) (hhigh : x = 4 → k < 16) :
    encodeChar (Char.ofNat (((x * 64 + k) * 64 + m) * 64 + l)) =
      [.ofNat (0xF0 + x), .ofNat (0x80 + k), .ofNat (0x80 + m), .ofNat (0x80 + l)] := by
  rw [encodeChar, toNat_ofNat_char (by omega)]
  rw [if_neg (by omega), if_neg (by omega), if_neg (by omega),
    show (((x * 64 + k) * 64 + m) * 64 + l) / 262144 = x by omega,
    show (((x * 64 + k) * 64 + m) * 64 + l) / 4096 % 64 = k by omega,
    show (((x * 64 + k) * 64 + m) * 64 + l) / 64 % 64 = m by omega,
    show (((x * 64 + k) * 64 + m) * 64 + l) % 64 = l by omega]

theorem lead?_cases {b : UInt8} {l : Lead} (h : lead? b = some l) :
    (0xC2 ≤ b.toNat ∧ b.toNat < 0xE0 ∧ l = ⟨b.toNat - 0xC0, 1, 0x80, 0xBF⟩) ∨
    (0xE0 ≤ b.toNat ∧ b.toNat < 0xF0 ∧ l = ⟨b.toNat - 0xE0, 2, if b = 0xE0 then 0xA0 else 0x80,
      if b = 0xED then 0x9F else 0xBF⟩) ∨
    (0xF0 ≤ b.toNat ∧ b.toNat < 0xF5 ∧ l = ⟨b.toNat - 0xF0, 3, if b = 0xF0 then 0x90 else 0x80,
      if b = 0xF4 then 0x8F else 0xBF⟩) := by
  have h1 : b < 0xC2 ↔ b.toNat < 0xC2 := UInt8.lt_iff_toNat_lt
  have h2 : b < 0xE0 ↔ b.toNat < 0xE0 := UInt8.lt_iff_toNat_lt
  have h3 : b < 0xF0 ↔ b.toNat < 0xF0 := UInt8.lt_iff_toNat_lt
  have h4 : b < 0xF5 ↔ b.toNat < 0xF5 := UInt8.lt_iff_toNat_lt
  simp only [lead?, h1, h2, h3, h4] at h
  split at h
  · cases h
  · split at h
    · exact Or.inl ⟨by omega, by omega, (Option.some.inj h).symm⟩
    · split at h
      · exact Or.inr (Or.inl ⟨by omega, by omega, (Option.some.inj h).symm⟩)
      · split at h
        · exact Or.inr (Or.inr ⟨by omega, by omega, (Option.some.inj h).symm⟩)
        · cases h

theorem complete_zero_eq_char {v : Nat} {taken rest r : List UInt8} {c : Char}
    (h : complete 0 v taken rest = (.char c, r)) : c = Char.ofNat v ∧ rest = r := by
  obtain ⟨hc, hr⟩ := Prod.mk.inj h
  exact ⟨(Piece.char.inj hc).symm, hr⟩

theorem complete_succ_eq_char {n v : Nat} {taken rest r : List UInt8} {c : Char}
    (h : complete (n + 1) v taken rest = (.char c, r)) :
    ∃ k tail, k < 64 ∧ rest = .ofNat (0x80 + k) :: tail ∧
      complete n (v * 64 + k) (taken ++ [.ofNat (0x80 + k)]) tail = (.char c, r) := by
  cases rest with
  | nil => cases h
  | cons b tail =>
    rw [complete] at h
    split at h
    · rename_i hb
      obtain ⟨hlow, hhigh⟩ := isTail_iff.mp hb
      have hk : b = .ofNat (0x80 + (b.toNat - 0x80)) := ofNat_byte hlow
      refine ⟨b.toNat - 0x80, tail, by omega, congrArg (· :: tail) hk, ?_⟩
      rw [← hk]
      exact h
    · cases h

theorem eq_of_toNat_eq {b : UInt8} {n : Nat} (h : b.toNat = n) : b = .ofNat n := by
  rw [← h, UInt8.ofNat_toNat]

theorem second_bounds {b d low high narrowLow narrowHigh : UInt8}
    (hl : 0x80 ≤ narrowLow.toNat) (hh : narrowHigh.toNat ≤ 0xBF)
    (hlow : (if b = low then narrowLow else 0x80).toNat ≤ d.toNat)
    (hhigh : d.toNat ≤ (if b = high then narrowHigh else 0xBF).toNat) :
    (0x80 ≤ d.toNat ∧ d.toNat ≤ 0xBF) ∧
      (b = low → narrowLow.toNat ≤ d.toNat) ∧ (b = high → d.toNat ≤ narrowHigh.toNat) := by
  refine ⟨⟨?_, ?_⟩, fun he => ?_, fun he => ?_⟩
  · split at hlow
    · exact Nat.le_trans hl hlow
    · exact hlow
  · split at hhigh
    · exact Nat.le_trans hhigh hh
    · exact hhigh
  · rwa [if_pos he] at hlow
  · rwa [if_pos he] at hhigh

variable {b d : UInt8} {taken rest r : List UInt8} {c : Char}

theorem eq_encodeChar_two (hb : 0xC2 ≤ b.toNat ∧ b.toNat < 0xE0)
    (hd : 0x80 ≤ d.toNat ∧ d.toNat ≤ 0xBF)
    (h : complete 0 ((b.toNat - 0xC0) * 64 + (d.toNat - 0x80)) taken rest = (.char c, r)) :
    b :: d :: rest = encodeChar c ++ r := by
  obtain ⟨hc, hr⟩ := complete_zero_eq_char h
  rw [hc, hr, encodeChar_two (by omega) (by omega) (by omega), ← ofNat_byte (by omega),
    ← ofNat_byte hd.1]
  rfl

theorem eq_encodeChar_three (hb : 0xE0 ≤ b.toNat ∧ b.toNat < 0xF0)
    (hd : 0x80 ≤ d.toNat ∧ d.toNat ≤ 0xBF) (hlow : b = 0xE0 → 0xA0 ≤ d.toNat)
    (hhigh : b = 0xED → d.toNat ≤ 0x9F)
    (h : complete 1 ((b.toNat - 0xE0) * 64 + (d.toNat - 0x80)) taken rest = (.char c, r)) :
    b :: d :: rest = encodeChar c ++ r := by
  obtain ⟨m, tail, hm, hrest, h⟩ := complete_succ_eq_char h
  obtain ⟨hc, hr⟩ := complete_zero_eq_char h
  -- without these bounds the sequence would be overlong or a surrogate
  have hx : b.toNat - 0xE0 = 0 → 32 ≤ d.toNat - 0x80 := fun h0 => by
    have := hlow (eq_of_toNat_eq (n := 0xE0) (by omega))
    omega
  have hy : b.toNat - 0xE0 = 13 → d.toNat - 0x80 < 32 := fun h0 => by
    have := hhigh (eq_of_toNat_eq (n := 0xED) (by omega))
    omega
  rw [hc, hrest, hr, encodeChar_three (by omega) (by omega) hm hx hy, ← ofNat_byte hb.1,
    ← ofNat_byte hd.1]
  rfl

theorem eq_encodeChar_four (hb : 0xF0 ≤ b.toNat ∧ b.toNat < 0xF5)
    (hd : 0x80 ≤ d.toNat ∧ d.toNat ≤ 0xBF) (hlow : b = 0xF0 → 0x90 ≤ d.toNat)
    (hhigh : b = 0xF4 → d.toNat ≤ 0x8F)
    (h : complete 2 ((b.toNat - 0xF0) * 64 + (d.toNat - 0x80)) taken rest = (.char c, r)) :
    b :: d :: rest = encodeChar c ++ r := by
  obtain ⟨m, tail, hm, hrest, h⟩ := complete_succ_eq_char h
  obtain ⟨l, tail', hl, htail, h⟩ := complete_succ_eq_char h
  obtain ⟨hc, hr⟩ := complete_zero_eq_char h
  -- without these bounds it would be overlong or past the last code point
  have hx : b.toNat - 0xF0 = 0 → 16 ≤ d.toNat - 0x80 := fun h0 => by
    have := hlow (eq_of_toNat_eq (n := 0xF0) (by omega))
    omega
  have hy : b.toNat - 0xF0 = 4 → d.toNat - 0x80 < 16 := fun h0 => by
    have := hhigh (eq_of_toNat_eq (n := 0xF4) (by omega))
    omega
  rw [hc, hrest, htail, hr, encodeChar_four (by omega) (by omega) hm hl hx hy, ← ofNat_byte hb.1,
    ← ofNat_byte hd.1]
  rfl

theorem next_eq_char {s : List UInt8} (h : next s = some (.char c, r)) :
    s = encodeChar c ++ r := by
  cases s with
  | nil => cases h
  | cons b rest =>
    simp only [next] at h
    split at h
    · rename_i hb
      have hn : b.toNat < 0x80 := UInt8.lt_iff_toNat_lt.mp hb
      obtain ⟨hc, rfl⟩ := Prod.mk.inj (Option.some.inj h)
      rw [← Piece.char.inj hc, encodeChar_one hn, UInt8.ofNat_toNat]
      rfl
    · split at h
      · cases (Prod.mk.inj (Option.some.inj h)).1
      · cases (Prod.mk.inj (Option.some.inj h)).1
      · rename_i l d rest hl
        split at h
        · rename_i hd
          have hd := Bool.and_eq_true_iff.mp hd
          have hlow := UInt8.le_iff_toNat_le.mp (of_decide_eq_true hd.1)
          have hhigh := UInt8.le_iff_toNat_le.mp (of_decide_eq_true hd.2)
          have h := Option.some.inj h
          rcases lead?_cases hl with ⟨hbl, hbu, rfl⟩ | ⟨hbl, hbu, rfl⟩ | ⟨hbl, hbu, rfl⟩
          · exact eq_encodeChar_two ⟨hbl, hbu⟩ ⟨hlow, hhigh⟩ h
          · obtain ⟨hd, hx, hy⟩ := second_bounds (by decide) (by decide) hlow hhigh
            exact eq_encodeChar_three ⟨hbl, hbu⟩ hd hx hy h
          · obtain ⟨hd, hx, hy⟩ := second_bounds (by decide) (by decide) hlow hhigh
            exact eq_encodeChar_four ⟨hbl, hbu⟩ hd hx hy h
        · cases (Prod.mk.inj (Option.some.inj h)).1

theorem decode?_of_next {s r : List UInt8} {p : Piece} (h : next s = some (p, r)) :
    decode? s = p.char?.bind fun c => (decode? r).map (c :: ·) := by
  rw [decode?, pieces, scan.tokens_of_some h, List.mapM_cons, decode?, pieces]
  cases p.char? with
  | none => rfl
  | some c => cases (scan.tokens r).mapM Piece.char? <;> rfl

theorem next_ne_none {b : UInt8} {s : List UInt8} : next (b :: s) ≠ none := by
  simp only [next]
  split
  · exact Option.some_ne_none _
  · split
    · exact Option.some_ne_none _
    · exact Option.some_ne_none _
    · split <;> exact Option.some_ne_none _

theorem eq_encode_of_decode? {s : List UInt8} {cs : List Char} (h : decode? s = some cs) :
    s = encode cs := by
  induction hn : s.length using Nat.strongRecOn generalizing s cs with
  | ind n ih =>
    cases hs : next s with
    | none =>
      cases s with
      | nil =>
        have he : some [] = some cs := (decode?_encode []).symm.trans h
        rw [← Option.some.inj he, encode_nil]
      | cons b s => exact (next_ne_none hs).elim
    | some p =>
      obtain ⟨piece, r⟩ := p
      rw [decode?_of_next hs] at h
      cases piece with
      | bad bytes => cases h
      | char c =>
        obtain ⟨ds, hd, rfl⟩ := Option.map_eq_some_iff.mp h
        rw [next_eq_char hs, ih r.length (hn ▸ length_next_lt hs) hd rfl]
        rfl

theorem decode?_eq_some_iff {s : List UInt8} {cs : List Char} :
    decode? s = some cs ↔ s = encode cs :=
  ⟨eq_encode_of_decode?, fun h => h ▸ decode?_encode cs⟩

theorem encode_inj {a b : List Char} (h : encode a = encode b) : a = b :=
  Option.some.inj (by rw [← decode?_encode a, h, decode?_encode])

theorem encodeChar_eq_utf8EncodeChar (c : Char) : encodeChar c = String.utf8EncodeChar c := by
  have hv : c.toNat < 0xD800 ∨ 0xDFFF < c.toNat ∧ c.toNat < 0x110000 := c.valid
  simp only [encodeChar, String.utf8EncodeChar, Char.toNat_val]
  generalize c.toNat = n at hv
  by_cases h1 : n < 0x80
  · rw [if_pos h1, if_pos (show n ≤ 0x7F by omega)]
  · rw [if_neg h1, if_neg (show ¬ n ≤ 0x7F by omega)]
    by_cases h2 : n < 0x800
    · rw [if_pos h2, if_pos (show n ≤ 0x7FF by omega),
        show n / 64 % 0x20 + 0xC0 = 0xC0 + n / 64 by omega, Nat.add_comm (n % 64)]
    · rw [if_neg h2, if_neg (show ¬ n ≤ 0x7FF by omega)]
      by_cases h3 : n < 0x10000
      · rw [if_pos h3, if_pos (show n ≤ 0xFFFF by omega),
          show n / 4096 % 0x10 + 0xE0 = 0xE0 + n / 4096 by omega,
          Nat.add_comm (n / 64 % 64), Nat.add_comm (n % 64)]
      · rw [if_neg h3, if_neg (show ¬ n ≤ 0xFFFF by omega),
          show n / 262144 % 0x08 + 0xF0 = 0xF0 + n / 262144 by omega,
          Nat.add_comm (n / 4096 % 64), Nat.add_comm (n / 64 % 64), Nat.add_comm (n % 64)]

end Utf8

theorem bytesOf_eq_toUTF8 (s : String) : bytesOf s = s.toUTF8.data.toList := by
  have he : Utf8.encodeChar = String.utf8EncodeChar := funext Utf8.encodeChar_eq_utf8EncodeChar
  have hd : (s.toList.flatMap String.utf8EncodeChar).toByteArray = s.toByteArray :=
    String.utf8Encode_toList
  rw [bytesOf, Utf8.encode, he, String.toUTF8, ← hd, List.data_toByteArray]

end EventHttp
