import EventHttp.IoError
import EventHttp.Net.IpAddress
import EventHttp.Text.Caseless

/-! The address that a host stands for: one to four numbers, a name that is known
without asking, or a name that somebody would have to be asked about. -/

namespace EventHttp.Host

def number? : List Char → Option Nat
  | '0' :: c :: rest =>
    if c = 'x' ∨ c = 'X' then Numeral.natural? 16 rest else Numeral.natural? 8 (c :: rest)
  | s => Numeral.natural? 10 s

/-- The value of numbers that fill so many bytes: each stands for one byte, and the
last for all that are left. -/
def fill? : Nat → List Nat → Option Nat
  | _, [] => none
  | room, [last] => if last >>> (8 * room) = 0 then some last else none
  | 0, _ => none
  | room + 1, n :: rest =>
    if n < 256 then (fill? room rest).map (n <<< (8 * room) + ·) else none

def ofNumbers? (s : List Char) : Option IpAddress :=
  (((splitAll '.' s).mapM number?).bind (fill? 4)).map fun n =>
    .v4 (.ofNat (n >>> 24)) (.ofNat (n >>> 16)) (.ofNat (n >>> 8)) (.ofNat n)

def known : List (String × IpAddress) :=
  [("localhost", .v4 127 0 0 1)]

def isNameChar (c : Char) : Bool :=
  c.isAlphanum || c = '-' || c = '_'

def isLabel (s : List Char) : Bool :=
  0 < s.length && s.length ≤ 63 && s.all isNameChar

def labels? (label : List Char) : List Char → Option (List (List Char))
  | [] => some [label.reverse]
  | ['\\'] => none
  | '\\' :: a :: rest =>
    match Decimal.digit? a, rest with
    | none, rest => labels? (a :: label) rest
    | some _, b :: c :: rest =>
      match Decimal.natural? [a, b, c] with
      | some n => if n < 256 then labels? (.ofNat n :: label) rest else none
      | none => none
    | some _, _ => none
  | '.' :: rest => (labels? [] rest).map (label.reverse :: ·)
  | c :: rest => labels? (c :: label) rest

def areName (labels : List (List Char)) : Bool :=
  labels ≠ [] && labels.flatten.length + labels.length ≤ 254 &&
    labels.flatten.head? ≠ some '-' && labels.all isLabel

def isName (s : List Char) : Bool :=
  match labels? [] s with
  | none => false
  | some labels =>
    s = ['.'] || areName (if labels.getLast? = some [] then labels.dropLast else labels)

def resolve (host : String) : Except IoCause IpAddress :=
  let s := host.toList
  if '\x00' ∈ s then .error .nulInName
  else
    match ofNumbers? s with
    | some ip => .ok ip
    | none =>
      match known.find? fun k => caselessEq k.1 host with
      | some k => .ok k.2
      | none => .error (if isName s then .nobodyToAsk else .unknownHost)

end EventHttp.Host
