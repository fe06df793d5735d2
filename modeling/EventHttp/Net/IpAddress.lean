import EventHttp.Text.Decimal
import EventHttp.Text.Numeral
import EventHttp.Text.Split

/-! Addresses of machines as text: four bytes between dots, or eight groups
between colons of which a gap may stand for some that are zero. -/

namespace EventHttp

inductive IpAddress where
  | v4 (a b c d : UInt8)
  | v6 (groups : Vector UInt16 8)
  deriving DecidableEq, Repr

namespace IpAddress

def byte? (s : List Char) : Option UInt8 :=
  match Decimal.natural? s with
  | some n => if n < 256 ∧ Decimal.digits n = s then some (.ofNat n) else none
  | none => none

def ofDotted? (s : List Char) : Option IpAddress :=
  match (splitAll '.' s).mapM byte? with
  | some [a, b, c, d] => some (.v4 a b c d)
  | _ => none

def group? (s : List Char) : Option UInt16 :=
  if s.length ≤ 4 then (Numeral.natural? 16 s).map .ofNat else none

def pair (high low : UInt8) : UInt16 :=
  high.toUInt16 * 256 + low.toUInt16

def groups? : List (List Char) → Option (List UInt16)
  | [] => some []
  | [last] =>
    match group? last, ofDotted? last with
    | some g, _ => some [g]
    | none, some (.v4 a b c d) => some [pair a b, pair c d]
    | none, _ => none
  | group :: rest =>
    match group? group, groups? rest with
    | some g, some gs => some (g :: gs)
    | _, _ => none

def groupsOf? (s : List Char) : Option (List UInt16) :=
  if s = [] then some [] else groups? (splitAll ':' s)

def ofGroups? (gs : List UInt16) : Option IpAddress :=
  if h : gs.length = 8 then some (.v6 ⟨⟨gs⟩, h⟩) else none

def splitGap? : List Char → Option (List Char × List Char)
  | [] => none
  | ':' :: ':' :: rest => some ([], rest)
  | c :: rest => (splitGap? rest).map fun (before, after) => (c :: before, after)

def ofColons? (s : List Char) : Option IpAddress :=
  match splitGap? s with
  | none => (groupsOf? s).bind ofGroups?
  | some (before, after) =>
    if before.contains '.' then none
    else
      match groupsOf? before, groupsOf? after with
      | some front, some back =>
        if front.length + back.length < 8 then
          ofGroups? (front ++ List.replicate (8 - front.length - back.length) 0 ++ back)
        else none
      | _, _ => none

def dotted (a b c d : UInt8) : String :=
  ".".intercalate ([a, b, c, d].map fun n => Decimal.text n.toNat)

def colons (gs : List UInt16) : String :=
  ":".intercalate (gs.map fun g => String.ofList (Hex.digits g.toNat))

def longestGap : List UInt16 → Nat × Nat
  | [] => (0, 0)
  | g :: rest =>
    let here := ((g :: rest).takeWhile (· = 0)).length
    let (start, length) := longestGap rest
    if length ≤ here then (0, here) else (start + 1, length)

def mappedStart : List UInt16 := [0, 0, 0, 0, 0, 0xFFFF]

def mapped? (gs : List UInt16) : Option (UInt8 × UInt8 × UInt8 × UInt8) :=
  if gs.take 6 = mappedStart then
    match gs.drop 6 with
    | [high, low] => some ((high / 256).toUInt8, high.toUInt8, (low / 256).toUInt8, low.toUInt8)
    | _ => none
  else none

def text : IpAddress → String
  | .v4 a b c d => dotted a b c d
  | .v6 groups =>
    let gs := groups.toList
    match mapped? gs with
    | some (a, b, c, d) => "::ffff:" ++ dotted a b c d
    | none =>
      let (start, length) := longestGap gs
      if length < 2 then colons gs
      else colons (gs.take start) ++ "::" ++ colons (gs.drop (start + length))

def isMulticast : IpAddress → Bool
  | .v4 .. => false
  | .v6 groups => groups[0] / 256 == 0xFF

def isLinkLocal : IpAddress → Bool
  | .v4 .. => false
  | .v6 groups => groups[0] &&& 0xFFC0 == 0xFE80

def isFourBytes : IpAddress → Bool
  | .v4 .. => true
  | .v6 groups => (mapped? groups.toList).isSome

def isUnspecified : IpAddress → Bool
  | .v4 a b c d => [a, b, c, d].all (· == 0)
  | .v6 groups => groups.toList.all (· == 0)

end IpAddress
end EventHttp
