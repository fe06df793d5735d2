import EventHttp.Pattern.Group

/-! What is wrong with a pattern.  Patterns are read from the left with a stack of the
groups that are open.  There are no counted repetitions: where patterns are used, a
brace is never closed. -/

namespace EventHttp.Pattern

structure Reader where
  group : Group
  outer : List Group
  names : List (List Char)
  hasWordBoundary : Bool
  deriving DecidableEq, Repr

namespace Reader

def start : Reader := ⟨.inMode .standard, [], [], false⟩

def add (r : Reader) (depth : Nat) : Reader :=
  { r with group := r.group.add depth }

def enter? (r : Reader) : Opening → Option Reader
  | .flags m => some { r with group := r.group.turn m }
  | .group m => some { r with group := .inMode m, outer := r.group :: r.outer }
  | .named name =>
    if name ∈ r.names then none
    else
      some { r with
        group := .inMode r.group.mode, outer := r.group :: r.outer, names := name :: r.names }

def leave? (r : Reader) : Option Reader :=
  match r.outer with
  | [] => none
  | g :: outer => some { r with group := g.add (r.group.depth + 1), outer }

def escape? (r : Reader) : Escape → Option Reader
  | .literal _ => if r.group.mode.takesCharacters then some (r.add 0) else none
  | .shorthand isNegated =>
    if r.group.mode.admitsClass isNegated then some (r.add 0) else none
  | .anchor => some (r.add 0)
  | .wordBoundary =>
    some { r.add 0 with hasWordBoundary := r.hasWordBoundary || r.group.mode.unicode }

def afterMark : List Char → List Char
  | '?' :: rest => rest
  | s => s

def step? (r : Reader) : List Char → Option (Reader × List Char)
  | [] => none
  | c :: rest =>
    let m := r.group.mode
    match c with
    | '(' => (Opening.read? m rest).bind fun (opening, rest) =>
      (r.enter? opening).map fun r => (r, rest)
    | ')' => r.leave?.map fun r => (r, rest)
    | '|' => some ({ r with group := r.group.branch }, rest)
    | '[' => (Bracket.set? m rest).map fun (depth, rest) => (r.add depth, rest)
    | '?' | '*' | '+' => r.group.repeat?.map fun g => ({ r with group := g }, afterMark rest)
    | '{' => none
    | '\\' => (Escape.read? m rest).bind fun (escape, rest) =>
      (r.escape? escape).map fun r => (r, rest)
    | '.' => if m.unicode then some (r.add 0, rest) else none
    | '^' | '$' => some (r.add 0, rest)
    | _ => if m.takesCharacters then some (r.add 0, rest) else none

def run : Nat → Reader → List Char → Option Reader
  | 0, r, s => if r.group.mode.skip s = [] then some r else none
  | fuel + 1, r, s =>
    match r.group.mode.skip s with
    | [] => some r
    | s => (r.step? s).bind fun (r, rest) => run fuel r rest

end Reader

inductive Objection where
  | malformed
  | wordBoundary
  deriving DecidableEq, Repr

def Objection.message : Objection → String
  | .malformed => "error building NFA"
  | .wordBoundary =>
    "unsupported regex feature for DFAs: cannot build DFAs for regexes with Unicode word " ++
      "boundaries; switch to ASCII word boundaries, or heuristically enable Unicode word " ++
      "boundaries or use a different regex engine"

def objection? (pattern : List Char) : Option Objection :=
  match Reader.start.run pattern.length pattern with
  | none => some .malformed
  | some r =>
    if r.outer ≠ [] ∨ depthMax < r.group.depth then some .malformed
    else if r.hasWordBoundary then some .wordBoundary
    else none

example : ["", ".*", "a**?", "[]a-z-]", "(?P<x>a|b)", "(?-u:\\d\\b)", "(?x)[a #\n]"].all
    (fun s => objection? s.toList = none) = true := by decide +kernel

example : ["*", "(?i)*", ")", "(", "[", "[z-a]", "\\d", "(?i)a", "a\x7b2", "(?<x>)(?<x>)"].all
    (fun s => objection? s.toList = some .malformed) = true := by decide +kernel

example : objection? "a\\b".toList = some .wordBoundary := by decide +kernel

end EventHttp.Pattern
