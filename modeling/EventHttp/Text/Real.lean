import EventHttp.Text.Caseless
import EventHttp.Text.Decimal
import EventHttp.Text.Split

/-! Which texts are real numbers: an optional sign, then digits with a point among
them and an exponent behind them, or a name for infinity or for no number at all. -/

namespace EventHttp.Real

def isDigits (s : List Char) : Bool :=
  s.all fun c => (Decimal.digit? c).isSome

def unsigned : List Char → List Char
  | '+' :: rest | '-' :: rest => rest
  | s => s

def isFraction (s : List Char) : Bool :=
  match splitFirst? '.' s with
  | none => s ≠ [] && isDigits s
  | some (whole, part) => whole ++ part ≠ [] && isDigits whole && isDigits part

def isScaled (s : List Char) : Bool :=
  let fraction := s.takeWhile fun c => c ≠ 'e' && c ≠ 'E'
  isFraction fraction &&
    match s.dropWhile fun c => c ≠ 'e' && c ≠ 'E' with
    | [] => true
    | _ :: exponent => unsigned exponent ≠ [] && isDigits (unsigned exponent)

def names : List String := ["inf", "infinity", "nan"]

def isReal (s : List Char) : Bool :=
  isScaled (unsigned s) || names.any (caselessEq (String.ofList (unsigned s)))

example : ["+5", "-.5", "1.", "1.5e-3", "+InF"].all (fun s => isReal s.toList) = true := by
  decide +kernel

example : ["", "+", ".", "1e", "e5", "1_0", "+-1"].any (fun s => isReal s.toList) = false := by
  decide +kernel

end EventHttp.Real
