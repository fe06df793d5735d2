import EventHttp.Pattern.Objection
import EventHttp.Text.Real

/-! Filters for what is logged: directives between commas.  A directive names a
target, a span in brackets with fields in braces, or both, and may end with a level
after an equals sign; a level may also stand alone.  The value of a field is a number
or a pattern.  Directives that cannot be read are ignored, with a note. -/

namespace EventHttp.LogFilter

inductive DirectiveError where
  | malformed
  | badField (objection : Pattern.Objection)
  | unknownLevel
  deriving DecidableEq, Repr

def DirectiveError.message : DirectiveError → String
  | .malformed => "invalid filter directive"
  | .badField objection => "invalid field filter: " ++ objection.message
  | .unknownLevel =>
    "error parsing level filter: expected one of \"off\", \"error\", \"warn\", \"info\", " ++
      "\"debug\", \"trace\", or a number 0-5"

def levels : List String := ["off", "error", "warn", "info", "debug", "trace"]

def isLevel (s : List Char) : Bool :=
  match Decimal.unsigned? UInt64.size s with
  | some n => n < levels.length
  | none => levels.any (caselessEq (String.ofList s))

def fieldError? (field : List Char) : Option DirectiveError :=
  if field = [] then some .malformed
  else
    match splitAll '=' field with
    | _ :: value :: _ =>
      if Real.isReal value then none else (Pattern.objection? value).map .badField
    | _ => none

inductive Position where
  | start
  | target
  | span
  | field (offset : Nat)
  | fieldsEnd
  | spanEnd
  | level (offset : Nat)
  deriving DecidableEq, Repr

def startsTarget (c : Char) : Bool :=
  c = '-' || c = ':' || c = '_' || Alphanumeric.isAlphanumeric c

def takeBytes (n : Nat) : List Char → List Char
  | [] => []
  | c :: rest => if c.utf8Size ≤ n then c :: takeBytes (n - c.utf8Size) rest else []

def dropBytes : Nat → List Char → List Char
  | 0, s => s
  | _, [] => []
  | n, c :: rest => dropBytes (n - c.utf8Size) rest

def step (directive : List Char) (offset : Nat) (p : Position) (c : Char) :
    Except DirectiveError Position :=
  let next := offset + c.utf8Size
  match p with
  | .start =>
    if c = '[' then .ok .span else if startsTarget c then .ok .target else .error .malformed
  | .target => .ok (if c = '=' then .level next else if c = '[' then .span else .target)
  | .span => .ok (if c = ']' then .spanEnd else if c = '{' then .field next else .span)
  | .field start =>
    if c = '}' then
      match fieldError? (takeBytes (offset - start) (dropBytes start directive)) with
      | some e => .error e
      | none => .ok .fieldsEnd
    else .ok (.field start)
  | .fieldsEnd => if c = ']' then .ok .spanEnd else .error .malformed
  | .spanEnd => if c = '=' then .ok (.level next) else .error .malformed
  | .level start => .ok (.level start)

def scan (directive : List Char) : Nat → Position → List Char → Except DirectiveError Position
  | _, p, [] => .ok p
  | offset, p, c :: rest =>
    match step directive offset p c with
    | .ok p => scan directive (offset + c.utf8Size) p rest
    | .error e => .error e

def error? (directive : List Char) : Option DirectiveError :=
  match scan directive 0 .start (Blank.trim directive) with
  | .ok .target | .ok .spanEnd => none
  | .ok (.level offset) =>
    let level := dropBytes offset directive
    if level = [] ∨ isLevel level then none else some .unknownLevel
  | .ok _ => some .malformed
  | .error e => some e

def ignored (filter : String) : List (String × DirectiveError) :=
  ((splitAll ',' filter.toList).filter (· ≠ [])).filterMap fun directive =>
    (error? directive).map fun e => (String.ofList directive, e)

def notes (filter : String) : String :=
  String.join ((ignored filter).map fun (directive, e) =>
    "ignoring `" ++ directive ++ "`: " ++ e.message ++ "\n")

end EventHttp.LogFilter
