import EventHttp.Pattern.Depth
import EventHttp.Pattern.Escape
import EventHttp.Text.Split

/-! Sets of characters in brackets: characters, ranges, named classes and brackets
within, with operators between them. -/

namespace EventHttp.Pattern

structure Bracket where
  left : Option Nat
  members : List Nat
  isFresh : Bool
  deriving DecidableEq, Repr

namespace Bracket

def add (b : Bracket) (depth : Nat) : Bracket :=
  { b with members := depth :: b.members, isFresh := false }

def depth (b : Bracket) : Nat :=
  match b.left with
  | none => rowDepth b.members
  | some left => max left (rowDepth b.members) + 1

def operate (b : Bracket) : Bracket :=
  ⟨some b.depth, [], false⟩

def opened? (m : Mode) (s : List Char) : Option (Bracket × List Char) :=
  match m.skip s with
  | '^' :: rest => if m.unicode then some (⟨none, [], true⟩, rest) else none
  | rest => some (⟨none, [], true⟩, rest)

def classNames : List String :=
  ["alnum", "alpha", "ascii", "blank", "cntrl", "digit", "graph", "lower", "print", "punct",
    "space", "upper", "word", "xdigit"]

def named? (s : List Char) : Option (Bool × List Char) :=
  let upTo := fun isNegated (s : List Char) =>
    match splitFirst? ':' s with
    | some (name, ']' :: rest) =>
      if String.ofList name ∈ classNames then some (isNegated, rest) else none
    | _ => none
  match s with
  | ':' :: '^' :: rest => upTo true rest
  | ':' :: rest => upTo false rest
  | _ => none

def member? (m : Mode) : List Char → Option (Escape × List Char)
  | [] => none
  | '\\' :: rest => Escape.read? m rest
  | c :: rest => some (.literal c, rest)

def admits (m : Mode) : Escape → Bool
  | .literal c => m.admits c
  | .shorthand isNegated => m.admitsClass isNegated
  | .anchor | .wordBoundary => false

def afterRange? (m : Mode) (s : List Char) : Option (List Char) :=
  match member? m s with
  | none => none
  | some (first, rest) =>
    match m.skip rest with
    | '-' :: behind =>
      if m.peek? behind = some ']' ∨ m.peek? behind = some '-' then
        if admits m first then some ('-' :: behind) else none
      else
        match first, member? m (m.skip behind) with
        | .literal low, some (.literal high, rest) =>
          if low ≤ high ∧ m.admits low ∧ m.admits high then some rest else none
        | _, _ => none
    | rest => if admits m first then some rest else none

/-- Reads to the end of the outermost bracket, in so many steps at most; the answer is
its depth and what follows. -/
def read (m : Mode) : Nat → Bracket → List Bracket → List Char → Option (Nat × List Char)
  | 0, _, _, _ => none
  | fuel + 1, b, outer, s =>
    match m.skip s with
    | [] => none
    | '[' :: rest =>
      match named? rest with
      | some (isNegated, rest) =>
        if m.takesCharacters && (m.unicode || !isNegated) then read m fuel (b.add 0) outer rest
        else none
      | none => (opened? m rest).bind fun (inner, rest) => read m fuel inner (b :: outer) rest
    | ']' :: rest =>
      if b.isFresh && b.members.isEmpty then
        if m.admits ']' then read m fuel (b.add 0) outer rest else none
      else
        match outer with
        | [] => some (b.depth + 1, rest)
        | next :: outer => read m fuel (next.add (b.depth + 1)) outer rest
    | '-' :: rest =>
      if b.isFresh then
        if m.admits '-' then read m fuel { b.add 0 with isFresh := true } outer rest else none
      else
        match rest with
        | '-' :: rest => read m fuel b.operate outer rest
        | _ => (afterRange? m ('-' :: rest)).bind (read m fuel (b.add 0) outer)
    | '&' :: '&' :: rest | '~' :: '~' :: rest => read m fuel b.operate outer rest
    | s => (afterRange? m s).bind (read m fuel (b.add 0) outer)

def set? (m : Mode) (s : List Char) : Option (Nat × List Char) :=
  (opened? m s).bind fun (b, rest) => read m s.length b [] rest

end Bracket
end EventHttp.Pattern
