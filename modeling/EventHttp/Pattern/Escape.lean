import EventHttp.Pattern.Mode
import EventHttp.Text.Numeral

/-! What a backslash makes of the characters behind it. -/

namespace EventHttp.Pattern

inductive Escape where
  | literal (c : Char)
  | shorthand (isNegated : Bool)
  | anchor
  | wordBoundary
  deriving DecidableEq, Repr

namespace Escape

def digits? (m : Mode) : Nat → Nat → List Char → Option (Nat × List Char)
  | 0, value, s => some (value, s)
  | _ + 1, _, [] => none
  | n + 1, value, c :: rest =>
    match Numeral.digit? 16 c with
    | some d => digits? m n (value * 16 + d) (m.skip rest)
    | none => none

def numbered? (m : Mode) (n : Nat) (s : List Char) : Option (Char × List Char) :=
  match digits? m n 0 (m.skip s) with
  | some (value, rest) => if value.isValidChar then some (.ofNat value, rest) else none
  | none => none

def read? (m : Mode) : List Char → Option (Escape × List Char)
  | [] => none
  | c :: rest =>
    let character := fun (c, rest) => (literal c, rest)
    match c with
    | 'x' => ((numbered? m 2 rest).filter fun (c, _) => m.unicode || c.toNat < 128).map character
    | 'u' => (numbered? m 4 rest).map character
    | 'U' => (numbered? m 8 rest).map character
    | 'd' | 's' | 'w' => some (.shorthand false, rest)
    | 'D' | 'S' | 'W' => some (.shorthand true, rest)
    | 'A' | 'z' => some (.anchor, rest)
    | 'b' | 'B' | '<' | '>' => some (.wordBoundary, rest)
    | 'a' => some (.literal '\x07', rest)
    | 'f' => some (.literal '\x0C', rest)
    | 't' => some (.literal '\t', rest)
    | 'n' => some (.literal '\n', rest)
    | 'r' => some (.literal '\r', rest)
    | 'v' => some (.literal '\x0B', rest)
    | c => if c.toNat < 128 && !c.isAlphanum then some (.literal c, rest) else none

end Escape
end EventHttp.Pattern
