import EventHttp.Text.Blank

/-! The modes in which a pattern is read.  Flags turn them on and off for the rest
of a group. -/

namespace EventHttp.Pattern

structure Mode where
  caseless : Bool
  unicode : Bool
  verbose : Bool
  deriving DecidableEq, Repr

namespace Mode

def standard : Mode := ⟨false, true, false⟩

def skipFrom : Bool → List Char → List Char
  | _, [] => []
  | true, c :: rest => skipFrom (c ≠ '\n') rest
  | false, c :: rest =>
    if c = '#' then skipFrom true rest
    else if Blank.isBlank c then skipFrom false rest
    else c :: rest

def skip (m : Mode) (s : List Char) : List Char :=
  if m.verbose then skipFrom false s else s

def peek? (m : Mode) (s : List Char) : Option Char :=
  if m.verbose then
    match s.dropWhile Blank.isBlank with
    | '#' :: rest => (rest.dropWhile Blank.isBlank).head?
    | rest => rest.head?
  else s.head?

/-- Whether single characters can be matched.  There are no tables of the cases of
characters, so nothing can be read in both cases but bytes. -/
def takesCharacters (m : Mode) : Bool :=
  !(m.caseless && m.unicode)

def admits (m : Mode) (c : Char) : Bool :=
  if m.unicode then !m.caseless else c.toNat < 128

def admitsClass (m : Mode) (isNegated : Bool) : Bool :=
  !m.unicode && !isNegated

def flags : List Char := ['i', 'm', 's', 'U', 'u', 'R', 'x', '-']

def flags? (seen : List Char) : List Char → Option (List Char × Char × List Char)
  | [] => none
  | c :: rest =>
    if c = ':' ∨ c = ')' then
      if seen.head? = some '-' then none else some (seen.reverse, c, rest)
    else if c ∈ flags ∧ c ∉ seen then flags? (c :: seen) rest
    else none

def set (m : Mode) (flags : List Char) : Mode :=
  let on := flags.takeWhile (· ≠ '-')
  let value := fun flag current => if flag ∈ flags then decide (flag ∈ on) else current
  ⟨value 'i' m.caseless, value 'u' m.unicode, value 'x' m.verbose⟩

end Mode
end EventHttp.Pattern
