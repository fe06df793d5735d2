import EventHttp.Pattern.Bracket
import EventHttp.Text.Alphanumeric

/-! Groups of a pattern: the branches between their bars, and how groups begin. -/

namespace EventHttp.Pattern

structure Group where
  mode : Mode
  branches : List Nat
  items : List (Option Nat)
  deriving DecidableEq, Repr

namespace Group

def inMode (m : Mode) : Group := ⟨m, [], []⟩

def add (g : Group) (depth : Nat) : Group :=
  { g with items := some depth :: g.items }

def turn (g : Group) (m : Mode) : Group :=
  { g with mode := m, items := none :: g.items }

def repeat? (g : Group) : Option Group :=
  match g.items with
  | some depth :: rest => some { g with items := some (depth + 1) :: rest }
  | _ => none

def branchDepth (g : Group) : Nat :=
  rowDepth (g.items.map (·.getD 0))

def branch (g : Group) : Group :=
  { g with branches := g.branchDepth :: g.branches, items := [] }

def depth (g : Group) : Nat :=
  rowDepth (g.branchDepth :: g.branches)

end Group

inductive Opening where
  | flags (mode : Mode)
  | group (mode : Mode)
  | named (name : List Char)
  deriving DecidableEq, Repr

namespace Opening

def startsName (c : Char) : Bool :=
  c = '_' || Alphabetic.isAlphabetic c

def continuesName (c : Char) : Bool :=
  c ∈ ['_', '.', '[', ']'] || Alphanumeric.isAlphanumeric c

def name? (s : List Char) : Option (Opening × List Char) :=
  match splitFirst? '>' s with
  | some (c :: name, rest) =>
    if startsName c && name.all continuesName then some (.named (c :: name), rest) else none
  | _ => none

def read? (m : Mode) (s : List Char) : Option (Opening × List Char) :=
  match m.skip s with
  | '?' :: 'P' :: '<' :: rest | '?' :: '<' :: rest => name? rest
  | '?' :: rest =>
    match Mode.flags? [] rest with
    | some ([], ')', _) | none => none
    | some (letters, ')', rest) => some (.flags (m.set letters), rest)
    | some (letters, _, rest) => some (.group (m.set letters), rest)
  | rest => some (.group m, rest)

end Opening
end EventHttp.Pattern
