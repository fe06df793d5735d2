import EventHttp.Text.Utf8

/-! Text that was written in UTF-8 reads back.  `pieces_encode_append` holds
whatever bytes follow the text. -/

namespace EventHttp.Utf8

theorem toNat_byte {n : Nat} (h : n < 256) : (UInt8.ofNat n).toNat = n := by
  simp; omega

theorem isTail_iff {b : UInt8} : isTail b = true ↔ 0x80 ≤ b.toNat ∧ b.toNat ≤ 0xBF := by
  simp [isTail, UInt8.le_iff_toNat_le]

theorem lead?_two {b : UInt8} (hl : 0xC2 ≤ b.toNat) (hu : b.toNat < 0xE0) :
    lead? b = some ⟨b.toNat - 0xC0, 1, 0x80, 0xBF⟩ := by
  rw [lead?, if_neg (by simp [UInt8.lt_iff_toNat_lt]; omega),
    if_pos (by simp [UInt8.lt_iff_toNat_lt]; omega)]

theorem lead?_three {b : UInt8} (hl : 0xE0 ≤ b.toNat) (hu : b.toNat < 0xF0) :
    lead? b = some ⟨b.toNat - 0xE0, 2, if b = 0xE0 then 0xA0 else 0x80,
      if b = 0xED then 0x9F else 0xBF⟩ := by
  rw [lead?, if_neg (by simp [UInt8.lt_iff_toNat_lt]; omega),
    if_neg (by simp [UInt8.lt_iff_toNat_lt]; omega),
    if_pos (by simp [UInt8.lt_iff_toNat_lt]; omega)]

theorem lead?_four {b : UInt8} (hl : 0xF0 ≤ b.toNat) (hu : b.toNat < 0xF5) :
    lead? b = some ⟨b.toNat - 0xF0, 3, if b = 0xF0 then 0x90 else 0x80,
      if b = 0xF4 then 0x8F else 0xBF⟩ := by
  rw [lead?, if_neg (by simp [UInt8.lt_iff_toNat_lt]; omega),
    if_neg (by simp [UInt8.lt_iff_toNat_lt]; omega),
    if_neg (by simp [UInt8.lt_iff_toNat_lt]; omega),
    if_pos (by simp [UInt8.lt_iff_toNat_lt]; omega)]

theorem complete_tail (n v : Nat) (taken rest : List UInt8) {k : Nat} (hk : k < 64) :
    complete (n + 1) v taken (.ofNat (0x80 + k) :: rest) =
      complete n (v * 64 + k) (taken ++ [.ofNat (0x80 + k)]) rest := by
  have hn : (UInt8.ofNat (0x80 + k)).toNat = 0x80 + k := toNat_byte (by omega)
  rw [complete, if_pos (isTail_iff.mpr (by omega)), hn, Nat.add_sub_cancel_left]

theorem next_ascii {n : Nat} (h : n < 0x80) (rest : List UInt8) :
    next (.ofNat n :: rest) = some (.char (Char.ofNat n), rest) := by
  have hn : (UInt8.ofNat n).toNat = n := toNat_byte (by omega)
  unfold next
  dsimp only
  rw [if_pos (by rw [UInt8.lt_iff_toNat_lt, hn]; exact h), hn]

theorem next_lead {b : UInt8} {l : Lead} (hb : 0x80 ≤ b.toNat) (hl : lead? b = some l)
    {k : Nat} (hk : k < 64) (hlow : l.low.toNat ≤ 0x80 + k) (hhigh : 0x80 + k ≤ l.high.toNat)
    (rest : List UInt8) :
    next (b :: .ofNat (0x80 + k) :: rest) =
      some (complete (l.following - 1) (l.value * 64 + k) [b, .ofNat (0x80 + k)] rest) := by
  have hn : (UInt8.ofNat (0x80 + k)).toNat = 0x80 + k := toNat_byte (by omega)
  unfold next
  dsimp only
  rw [if_neg (by simp [UInt8.lt_iff_toNat_lt]; omega)]
  simp only [hl]
  rw [if_pos (by rw [Bool.and_eq_true, decide_eq_true_eq, decide_eq_true_eq,
    UInt8.le_iff_toNat_le, UInt8.le_iff_toNat_le, hn]; exact ⟨hlow, hhigh⟩), hn,
    Nat.add_sub_cancel_left]

theorem toNat_ite_le {b c x y : UInt8} {m : Nat} (hx : b = c → x.toNat ≤ m) (hy : y.toNat ≤ m) :
    (if b = c then x else y).toNat ≤ m := by
  split
  · exact hx (by assumption)
  · exact hy

theorem le_toNat_ite {b c x y : UInt8} {m : Nat} (hx : b = c → m ≤ x.toNat) (hy : m ≤ y.toNat) :
    m ≤ (if b = c then x else y).toNat := by
  split
  · exact hx (by assumption)
  · exact hy

theorem next_two {x k : Nat} (hl : 2 ≤ x) (hu : x < 32) (hk : k < 64) (rest : List UInt8) :
    next (.ofNat (0xC0 + x) :: .ofNat (0x80 + k) :: rest) =
      some (.char (Char.ofNat (x * 64 + k)), rest) := by
  have hb : (UInt8.ofNat (0xC0 + x)).toNat = 0xC0 + x := toNat_byte (by omega)
  rw [next_lead (by omega) (lead?_two (by omega) (by omega)) hk (by simp) (by simp; omega), hb,
    Nat.add_sub_cancel_left]
  rfl

theorem next_three {x k m : Nat} (hx : x < 16) (hk : k < 64) (hm : m < 64)
    (hlow : x = 0 → 32 ≤ k) (hhigh : x = 13 → k < 32) (rest : List UInt8) :
    next (.ofNat (0xE0 + x) :: .ofNat (0x80 + k) :: .ofNat (0x80 + m) :: rest) =
      some (.char (Char.ofNat ((x * 64 + k) * 64 + m)), rest) := by
  have hb : (UInt8.ofNat (0xE0 + x)).toNat = 0xE0 + x := toNat_byte (by omega)
  have eq {n : Nat} (hn : n < 256) (h : UInt8.ofNat (0xE0 + x) = .ofNat n) : 0xE0 + x = n := by
    rw [← hb, h, toNat_byte hn]
  rw [next_lead (by omega) (lead?_three (by omega) (by omega)) hk
    (toNat_ite_le (fun h => by have := eq (n := 0xE0) (by omega) h; simp; omega) (by simp))
    (le_toNat_ite (fun h => by have := eq (n := 0xED) (by omega) h; simp; omega) (by simp; omega)),
    hb, Nat.add_sub_cancel_left]
  rw [show (2 - 1 : Nat) = 0 + 1 from rfl, complete_tail _ _ _ _ hm]
  rfl

theorem next_four {x k m l : Nat} (hx : x < 5) (hk : k < 64) (hm : m < 64) (hl : l < 64)
    (hlow : x = 0 → 16 ≤ k) (hhigh : x = 4 → k < 16) (rest : List UInt8) :
    next (.ofNat (0xF0 + x) :: .ofNat (0x80 + k) :: .ofNat (0x80 + m) :: .ofNat (0x80 + l) ::
      rest) = some (.char (Char.ofNat (((x * 64 + k) * 64 + m) * 64 + l)), rest) := by
  have hb : (UInt8.ofNat (0xF0 + x)).toNat = 0xF0 + x := toNat_byte (by omega)
  have eq {n : Nat} (hn : n < 256) (h : UInt8.ofNat (0xF0 + x) = .ofNat n) : 0xF0 + x = n := by
    rw [← hb, h, toNat_byte hn]
  rw [next_lead (by omega) (lead?_four (by omega) (by omega)) hk
    (toNat_ite_le (fun h => by have := eq (n := 0xF0) (by omega) h; simp; omega) (by simp))
    (le_toNat_ite (fun h => by have := eq (n := 0xF4) (by omega) h; simp; omega) (by simp; omega)),
    hb, Nat.add_sub_cancel_left]
  rw [show (3 - 1 : Nat) = 0 + 1 + 1 from rfl, complete_tail _ _ _ _ hm, complete_tail _ _ _ _ hl]
  rfl

theorem next_encodeChar (c : Char) (rest : List UInt8) :
    next (encodeChar c ++ rest) = some (.char c, rest) := by
  have hv : c.toNat < 0xD800 ∨ 0xDFFF < c.toNat ∧ c.toNat < 0x110000 := c.valid
  have hc : Char.ofNat c.toNat = c := Char.ofNat_toNat c
  unfold encodeChar
  generalize c.toNat = n at hv hc
  dsimp only
  split
  · rw [List.singleton_append, next_ascii (by assumption), hc]
  · split
    · simp only [List.cons_append, List.nil_append]
      rw [next_two (by omega) (by omega) (by omega), show n / 64 * 64 + n % 64 = n by omega, hc]
    · split
      · simp only [List.cons_append, List.nil_append]
        rw [next_three (by omega) (by omega) (by omega) (by omega) (by omega),
          show (n / 4096 * 64 + n / 64 % 64) * 64 + n % 64 = n by omega, hc]
      · simp only [List.cons_append, List.nil_append]
        rw [next_four (by omega) (by omega) (by omega) (by omega) (by omega) (by omega),
          show ((n / 262144 * 64 + n / 4096 % 64) * 64 + n / 64 % 64) * 64 + n % 64 = n by omega, hc]

theorem pieces_encode_append (cs : List Char) (rest : List UInt8) :
    pieces (encode cs ++ rest) = cs.map .char ++ pieces rest := by
  induction cs with
  | nil => rfl
  | cons c cs ih =>
    rw [show encode (c :: cs) ++ rest = encodeChar c ++ (encode cs ++ rest) by simp [encode]]
    rw [pieces, scan.tokens_of_some (next_encodeChar c _)]
    exact congrArg _ ih

@[simp] theorem pieces_encode (cs : List Char) : pieces (encode cs) = cs.map .char := by
  have h := pieces_encode_append cs []
  rwa [List.append_nil, show pieces [] = [] from scan.tokens_of_none rfl, List.append_nil] at h

@[simp] theorem decode?_encode (cs : List Char) : decode? (encode cs) = some cs := by
  rw [decode?, pieces_encode]
  induction cs with
  | nil => rfl
  | cons c cs ih => simp [Piece.char?, ih]

@[simp] theorem decodeLossy_encode (cs : List Char) : decodeLossy (encode cs) = cs := by
  simp [decodeLossy, Piece.char?, Function.comp_def]

end EventHttp.Utf8
