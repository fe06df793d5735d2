/-! Equality of texts up to the case of ASCII letters. -/

namespace EventHttp

def lowered (s : String) : List Char :=
  s.toList.map Char.toLower

def caselessEq (a b : String) : Bool :=
  lowered a == lowered b

@[simp] theorem caselessEq_refl (a : String) : caselessEq a a = true := by
  simp [caselessEq]

theorem caselessEq_comm (a b : String) : caselessEq a b = caselessEq b a := by
  simp [caselessEq, Bool.beq_comm]

theorem caselessEq_iff {a b : String} : caselessEq a b = true ↔ lowered a = lowered b := by
  simp [caselessEq]

end EventHttp
