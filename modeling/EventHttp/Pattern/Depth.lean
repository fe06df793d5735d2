/-! How deep the parts of a pattern are nested. -/

namespace EventHttp.Pattern

def depthMax : Nat := 250

def deepest (depths : List Nat) : Nat :=
  depths.foldl max 0

def rowDepth : List Nat → Nat
  | [] => 0
  | [depth] => depth
  | depths => deepest depths + 1

end EventHttp.Pattern
