import EventHttp.Site.Form
import EventHttp.Text.Utf8.RoundTrip
import Mathlib.Data.List.Induction

/-! The ways to write a form down.  A byte stands for itself, for two digits of either case
behind a percent sign, and a blank also for a plus sign; what separates names, values and pairs
is always escaped.  However a list of pairs is written, the pairs that are read are those of the
list, so no byte of a value makes, ends or renames another pair. -/

namespace EventHttp

namespace Hex

def spellings (n : Nat) : List UInt8 :=
  if n < 10 then [.ofNat (0x30 + n)] else [.ofNat (0x41 + (n - 10)), .ofNat (0x61 + (n - 10))]

theorem value?_of_mem_spellings {n : Nat} (hn : n < 16) {d : UInt8} (hd : d ∈ spellings n) :
    value? d = some n := by
  have key : ∀ n < 16, ∀ d ∈ spellings n, value? d = some n := by decide +kernel
  exact key n hn d hd

end Hex

namespace Form

inductive Side where
  | name
  | value

def Side.reserved : Side → List UInt8
  | .name => [0x26, 0x25, 0x2B, 0x3D]
  | .value => [0x26, 0x25, 0x2B]

inductive WritesBytes (side : Side) : List UInt8 → List UInt8 → Prop where
  | nil : WritesBytes side [] []
  | literal {b : UInt8} {bs s : List UInt8} (h : b ∉ side.reserved)
      (hbs : WritesBytes side bs s) : WritesBytes side (b :: bs) (b :: s)
  | escaped {b high low : UInt8} {bs s : List UInt8} (hhigh : high ∈ Hex.spellings (b.toNat / 16))
      (hlow : low ∈ Hex.spellings (b.toNat % 16)) (hbs : WritesBytes side bs s) :
      WritesBytes side (b :: bs) (0x25 :: high :: low :: s)
  | plus {bs s : List UInt8} (hbs : WritesBytes side bs s) :
      WritesBytes side (0x20 :: bs) (0x2B :: s)

def Writes (side : Side) (text : String) (s : List UInt8) : Prop :=
  WritesBytes side (bytesOf text) s

inductive WritesPair : String × String → List UInt8 → Prop where
  | full {name value : String} {s t : List UInt8} (hname : Writes .name name s)
      (hvalue : Writes .value value t) : WritesPair (name, value) (s ++ 0x3D :: t)
  | bare {name : String} {s : List UInt8} (hne : name ≠ "") (hname : Writes .name name s) :
      WritesPair (name, "") s

inductive WritesParts : List (String × String) → List (List UInt8) → Prop where
  | nil : WritesParts [] []
  | blank {form : List (String × String)} {parts : List (List UInt8)}
      (h : WritesParts form parts) : WritesParts form ([] :: parts)
  | pair {pair : String × String} {form : List (String × String)} {part : List UInt8}
      {parts : List (List UInt8)} (hpair : WritesPair pair part) (h : WritesParts form parts) :
      WritesParts (pair :: form) (part :: parts)

/-- The bodies that a list of pairs may be sent as. -/
def WritesForm (form : List (String × String)) (body : List UInt8) : Prop :=
  ∃ parts, WritesParts form parts ∧ body = [0x26].intercalate parts

def last? (form : List (String × String)) (name : String) : Option String :=
  ((form.filter fun pair => pair.1 == name).getLast?).map (·.2)

variable {side : Side} {b : UInt8} {bs s t : List UInt8}

theorem percent_mem_reserved (side : Side) : 0x25 ∈ side.reserved := by
  cases side <;> decide

theorem plus_mem_reserved (side : Side) : 0x2B ∈ side.reserved := by
  cases side <;> decide

theorem unescape_of_nextByte (h : nextByte s = some (b, t)) : unescape s = b :: unescape t :=
  scan.tokens_of_some h

theorem nextByte_literal (h : b ∉ side.reserved) (s : List UInt8) :
    nextByte (b :: s) = some (b, s) := by
  have hplus : b ≠ 0x2B := fun he => h (he ▸ plus_mem_reserved side)
  have hpercent : b ≠ 0x25 := fun he => h (he ▸ percent_mem_reserved side)
  unfold nextByte
  exact (if_neg hplus).trans (if_neg hpercent)

theorem nextByte_escaped {high low : UInt8} (hhigh : high ∈ Hex.spellings (b.toNat / 16))
    (hlow : low ∈ Hex.spellings (b.toNat % 16)) (s : List UInt8) :
    nextByte (0x25 :: high :: low :: s) = some (b, s) := by
  have hb : b.toNat < 256 := UInt8.toNat_lt b
  have hvhigh := Hex.value?_of_mem_spellings (by omega) hhigh
  have hvlow := Hex.value?_of_mem_spellings (by omega) hlow
  have hsum : b.toNat / 16 * 16 + b.toNat % 16 = b.toNat := by omega
  simp only [nextByte, hvhigh, hvlow, hsum, UInt8.ofNat_toNat]
  rfl

theorem unescape_of_writesBytes (h : WritesBytes side bs s) : unescape s = bs := by
  induction h with
  | nil => exact scan.tokens_of_none rfl
  | literal h _ ih => rw [unescape_of_nextByte (nextByte_literal h _), ih]
  | escaped hhigh hlow _ ih => rw [unescape_of_nextByte (nextByte_escaped hhigh hlow _), ih]
  | plus _ ih => rw [unescape_of_nextByte rfl, ih]

theorem decode_of_writes {text : String} (h : Writes side text s) : decode s = text := by
  rw [decode, unescape_of_writesBytes h, bytesOf, Utf8.decodeLossy_encode, String.ofList_toList]

theorem not_mem_of_writesBytes {sep : UInt8} (hsep : sep = 0x26 ∨ sep = 0x3D)
    (hreserved : sep ∈ side.reserved) (h : WritesBytes side bs s) : sep ∉ s := by
  have hdigit : ∀ n < 16, sep ∉ Hex.spellings n := by
    rcases hsep with rfl | rfl <;> decide
  have hsign : sep ≠ 0x25 ∧ sep ≠ 0x2B := by
    rcases hsep with rfl | rfl <;> decide
  induction h with
  | nil => exact List.not_mem_nil
  | literal h _ ih => exact List.not_mem_cons_of_ne_of_not_mem (fun he => h (he ▸ hreserved)) ih
  | @escaped b _ _ _ _ hhigh hlow _ ih =>
    have hb : b.toNat < 256 := UInt8.toNat_lt b
    have hne : ∀ {n d}, n < 16 → d ∈ Hex.spellings n → sep ≠ d :=
      fun hn hd he => hdigit _ hn (he ▸ hd)
    exact List.not_mem_cons_of_ne_of_not_mem hsign.1
      (List.not_mem_cons_of_ne_of_not_mem (hne (by omega) hhigh)
        (List.not_mem_cons_of_ne_of_not_mem (hne (by omega) hlow) ih))
  | plus _ ih => exact List.not_mem_cons_of_ne_of_not_mem hsign.2 ih

theorem equals_not_mem {name : String} (h : Writes .name name s) : 0x3D ∉ s :=
  not_mem_of_writesBytes (Or.inr rfl) (by decide) h

theorem ampersand_not_mem {text : String} (h : Writes side text s) : 0x26 ∉ s :=
  not_mem_of_writesBytes (Or.inl rfl) (by cases side <;> decide) h

variable {pair : String × String} {form : List (String × String)} {part body : List UInt8}
  {parts : List (List UInt8)}

theorem decodePair_of_writesPair (h : WritesPair pair part) : decodePair part = pair := by
  cases h with
  | full hname hvalue =>
    rw [decodePair, splitFirst?_eq_some_iff.mpr ⟨equals_not_mem hname, rfl⟩]
    exact Prod.ext (decode_of_writes hname) (decode_of_writes hvalue)
  | bare _ hname =>
    rw [decodePair, splitFirst?_eq_none_iff.mpr (equals_not_mem hname)]
    exact Prod.ext (decode_of_writes hname) rfl

theorem ne_nil_of_writesPair (h : WritesPair pair part) : part ≠ [] := by
  cases h with
  | full => simp
  | bare hne hname =>
    -- an empty part would be read as the empty name
    rintro rfl
    have hempty : Writes .name "" [] := .nil
    exact hne ((decode_of_writes hname).symm.trans (decode_of_writes hempty))

theorem ampersand_not_mem_of_writesPair (h : WritesPair pair part) : 0x26 ∉ part := by
  cases h with
  | full hname hvalue =>
    intro hmem
    rcases List.mem_append.mp hmem with hs | ht
    · exact ampersand_not_mem hname hs
    · rcases List.mem_cons.mp ht with he | ht
      · exact absurd he (by decide)
      · exact ampersand_not_mem hvalue ht
  | bare _ hname => exact ampersand_not_mem hname

theorem ampersand_not_mem_of_writesParts (h : WritesParts form parts) :
    ∀ part ∈ parts, 0x26 ∉ part := by
  induction h with
  | nil => exact fun part hpart => absurd hpart List.not_mem_nil
  | blank _ ih => exact List.forall_mem_cons.mpr ⟨List.not_mem_nil, ih⟩
  | pair hpair _ ih => exact List.forall_mem_cons.mpr ⟨ampersand_not_mem_of_writesPair hpair, ih⟩

theorem map_decodePair_of_writesParts (h : WritesParts form parts) :
    (parts.filter (· ≠ [])).map decodePair = form := by
  induction h with
  | nil => rfl
  | blank _ ih => exact ih
  | pair hpair _ ih =>
    rw [List.filter_cons, if_pos (decide_eq_true (ne_nil_of_writesPair hpair)), List.map_cons,
      decodePair_of_writesPair hpair, ih]

theorem value?_eq_last? (form : List (String × String)) (name : String) :
    value? form name = last? form name := by
  induction form using List.reverseRecOn with
  | nil => rfl
  | append_singleton form pair ih =>
    obtain ⟨key, value⟩ := pair
    rw [value?, List.reverse_concat, List.lookup_cons, last?, List.filter_append]
    by_cases hk : name = key
    · subst hk
      simp
    · rw [beq_false_of_ne hk, List.filter_cons_of_neg (by simpa using Ne.symm hk), List.filter_nil,
        List.append_nil]
      exact ih

/-- However a list of pairs is written, its pairs are read, and under each name the value of the
last pair of that name. -/
theorem pairs_of_writesForm (h : WritesForm form body) :
    pairs body = form ∧ ∀ name, value? (pairs body) name = last? form name := by
  have hpairs : pairs body = form := by
    obtain ⟨parts, hparts, rfl⟩ := h
    rw [pairs, splitAll_eq_splitOn]
    by_cases hnil : parts = []
    · subst hnil
      cases hparts
      rfl
    · rw [List.splitOn_intercalate _ (ampersand_not_mem_of_writesParts hparts) hnil,
        map_decodePair_of_writesParts hparts]
  exact ⟨hpairs, fun name => by rw [hpairs, value?_eq_last?]⟩

/-- A form whose value spells out another pair, with a character half escaped, a pair without an
equals sign and blank parts. -/
theorem pairs_of_writesForm_smuggled :
    let body := bytesOf "&a=1%26b=2&&%c3" ++ 0xBC :: bytesOf "&a=x+%79&"
    WritesForm [("a", "1&b=2"), ("ü", ""), ("a", "x y")] body ∧
      value? (pairs body) "a" = some "x y" ∧ value? (pairs body) "b" = none := by
  intro body
  have hname : Writes .name "a" (bytesOf "a") := .literal (by decide) .nil
  have hfirst : Writes .value "1&b=2" (bytesOf "1%26b=2") :=
    .literal (by decide) (.escaped (by decide) (by decide) (.literal (by decide)
      (.literal (by decide) (.literal (by decide) .nil))))
  have hsplit : Writes .name "ü" (bytesOf "%c3" ++ [0xBC]) :=
    .escaped (by decide) (by decide) (.literal (by decide) .nil)
  have hlast : Writes .value "x y" (bytesOf "x+%79") :=
    .literal (by decide) (.plus (.escaped (by decide) (by decide) .nil))
  have h : WritesForm [("a", "1&b=2"), ("ü", ""), ("a", "x y")] body :=
    ⟨_, .blank (.pair (.full hname hfirst) (.blank (.pair (.bare (by decide) hsplit)
      (.pair (.full hname hlast) (.blank .nil))))), by decide⟩
  exact ⟨h, (pairs_of_writesForm h).2 "a", (pairs_of_writesForm h).2 "b"⟩

end Form
end EventHttp
