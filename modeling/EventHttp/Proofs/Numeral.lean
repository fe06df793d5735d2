import EventHttp.Text.Decimal
import Mathlib.Data.List.Induction
import Mathlib.Data.Nat.Digits.Defs

/-! Which texts are numerals, and of what number. -/

namespace EventHttp.Decimal

def value (digits : List Char) : Nat :=
  Nat.ofDigits 10 (digits.reverse.map fun c => c.toNat - '0'.toNat)

/-- One or more digits that stand for `n`, with or without a plus sign. -/
def Spells (s : List Char) (n : Nat) : Prop :=
  ∃ digits, digits ≠ [] ∧ (∀ c ∈ digits, c.isDigit = true) ∧ (s = digits ∨ s = '+' :: digits) ∧
    value digits = n

theorem value_concat (digits : List Char) (c : Char) :
    value (digits ++ [c]) = value digits * 10 + (c.toNat - '0'.toNat) := by
  rw [value, List.reverse_append, List.reverse_singleton, List.singleton_append, List.map_cons,
    Nat.ofDigits_cons, Nat.mul_comm, Nat.add_comm]
  rfl

theorem digit?_eq_some_iff {c : Char} {n : Nat} :
    digit? c = some n ↔ c.isDigit = true ∧ c.toNat - '0'.toNat = n := by
  have hd : c.isDigit = true ↔ '0' ≤ c ∧ c ≤ '9' := by
    rw [Char.isDigit_iff_toNat, Char.le_def, Char.le_def, UInt32.le_iff_toNat_le,
      UInt32.le_iff_toNat_le]
    rfl
  rw [digit?, hd]
  split
  · rename_i h
    exact ⟨fun he => ⟨h, Option.some.inj he⟩, fun he => congrArg some he.2⟩
  · rename_i h
    exact ⟨fun he => (nomatch he), fun he => (h he.1).elim⟩

theorem natural?_eq_some_iff {digits : List Char} {n : Nat} :
    natural? digits = some n ↔
      digits ≠ [] ∧ (∀ c ∈ digits, c.isDigit = true) ∧ value digits = n := by
  induction digits using List.reverseRecOn generalizing n with
  | nil => exact ⟨fun h => (nomatch h), fun h => (h.1 rfl).elim⟩
  | append_singleton digits c ih =>
    rw [value_concat]
    by_cases hn : digits = []
    · subst hn
      rw [List.nil_append, natural?_singleton, digit?_eq_some_iff]
      simp [value]
    · rw [natural?_concat hn, Option.bind_eq_some_iff]
      constructor
      · rintro ⟨v, hv, hc⟩
        obtain ⟨d, hd, rfl⟩ := Option.map_eq_some_iff.mp hc
        obtain ⟨-, hall, rfl⟩ := ih.mp hv
        obtain ⟨hdigit, rfl⟩ := digit?_eq_some_iff.mp hd
        refine ⟨by simp, fun x hx => ?_, rfl⟩
        rcases List.mem_append.mp hx with hx | hx
        · exact hall x hx
        · exact List.mem_singleton.mp hx ▸ hdigit
      · rintro ⟨-, hall, rfl⟩
        have hc : c.isDigit = true := hall c (by simp)
        refine ⟨value digits, ih.mpr ⟨hn, fun x hx => hall x (by simp [hx]), rfl⟩, ?_⟩
        rw [digit?_eq_some_iff.mpr ⟨hc, rfl⟩]
        rfl

theorem unsigned?_eq_some_iff {limit : Nat} {s : List Char} {n : Nat} :
    unsigned? limit s = some n ↔ Spells s n ∧ n < limit := by
  unfold unsigned?
  rw [Option.filter_eq_some_iff, decide_eq_true_eq]
  refine and_congr_left fun _ => ?_
  split
  · rename_i rest
    rw [natural?_eq_some_iff]
    constructor
    · rintro ⟨hn, hall, hv⟩
      exact ⟨rest, hn, hall, Or.inr rfl, hv⟩
    · rintro ⟨digits, hn, hall, rfl | hs, hv⟩
      -- a plus sign is no digit, so it is the sign
      · exact absurd (hall '+' List.mem_cons_self) (by decide)
      · exact (List.cons.inj hs).2 ▸ ⟨hn, hall, hv⟩
  · rename_i hs
    rw [natural?_eq_some_iff]
    constructor
    · rintro ⟨hn, hall, hv⟩
      exact ⟨s, hn, hall, Or.inl rfl, hv⟩
    · rintro ⟨digits, hn, hall, rfl | h, hv⟩
      · exact ⟨hn, hall, hv⟩
      · exact (hs digits h).elim

def SpellsSigned (s : List Char) (n : Int) : Prop :=
  ∃ digits, digits ≠ [] ∧ (∀ c ∈ digits, c.isDigit = true) ∧
    ((s = digits ∨ s = '+' :: digits) ∧ Int.ofNat (value digits) = n ∨
      s = '-' :: digits ∧ -Int.ofNat (value digits) = n)

theorem signed?_eq_some_iff {low high : Int} {s : List Char} {n : Int} :
    signed? low high s = some n ↔ SpellsSigned s n ∧ low ≤ n ∧ n ≤ high := by
  unfold signed?
  dsimp only
  rw [Option.filter_eq_some_iff, Bool.and_eq_true, decide_eq_true_eq, decide_eq_true_eq]
  refine and_congr_left fun _ => ?_
  split
  · rename_i rest
    rw [Option.map_eq_some_iff]
    constructor
    · rintro ⟨v, hv, rfl⟩
      obtain ⟨hn, hall, rfl⟩ := natural?_eq_some_iff.mp hv
      exact ⟨rest, hn, hall, Or.inl ⟨Or.inr rfl, rfl⟩⟩
    · rintro ⟨digits, hn, hall, ⟨rfl | hs, rfl⟩ | ⟨hs, -⟩⟩
      · exact absurd (hall '+' List.mem_cons_self) (by decide)
      · cases hs
        exact ⟨_, natural?_eq_some_iff.mpr ⟨hn, hall, rfl⟩, rfl⟩
      · cases hs
  · rename_i rest
    rw [Option.map_eq_some_iff]
    constructor
    · rintro ⟨v, hv, rfl⟩
      obtain ⟨hn, hall, rfl⟩ := natural?_eq_some_iff.mp hv
      exact ⟨rest, hn, hall, Or.inr ⟨rfl, rfl⟩⟩
    · rintro ⟨digits, hn, hall, ⟨rfl | hs, -⟩ | ⟨hs, rfl⟩⟩
      · exact absurd (hall '-' List.mem_cons_self) (by decide)
      · cases hs
      · cases hs
        exact ⟨_, natural?_eq_some_iff.mpr ⟨hn, hall, rfl⟩, rfl⟩
  · rename_i hplus hminus
    rw [Option.map_eq_some_iff]
    constructor
    · rintro ⟨v, hv, rfl⟩
      obtain ⟨hn, hall, rfl⟩ := natural?_eq_some_iff.mp hv
      exact ⟨s, hn, hall, Or.inl ⟨Or.inl rfl, rfl⟩⟩
    · rintro ⟨digits, hn, hall, ⟨rfl | hs, rfl⟩ | ⟨hs, -⟩⟩
      · exact ⟨_, natural?_eq_some_iff.mpr ⟨hn, hall, rfl⟩, rfl⟩
      · exact (hplus digits hs).elim
      · exact (hminus digits hs).elim

end EventHttp.Decimal
