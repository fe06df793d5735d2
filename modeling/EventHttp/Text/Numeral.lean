import EventHttp.Text.Hex

/-! Reading numerals in a base of up to sixteen. -/

namespace EventHttp.Numeral

def digit? (base : Nat) (c : Char) : Option Nat :=
  if c.toNat < 128 then (Hex.value? (.ofNat c.toNat)).filter (· < base) else none

def natural? (base : Nat) : List Char → Option Nat
  | [] => none
  | cs => cs.foldl (fun value c => value.bind fun v => (digit? base c).map (v * base + ·)) (some 0)

end EventHttp.Numeral
