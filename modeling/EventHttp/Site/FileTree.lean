import EventHttp.Text.Split
import EventHttp.IoError

/-! Files with their permission bits, in directories. -/

namespace EventHttp

inductive FileTree where
  | file (mode : Nat) (content : Except IoCause (List UInt8))
  | directory (entries : List (String × FileTree))

namespace FileTree

def empty : FileTree := .directory []

def find? : FileTree → List String → Option FileTree
  | t, [] => some t
  | .file _ _, _ :: _ => none
  | .directory entries, name :: rest =>
    match entries.lookup name with
    | some t => t.find? rest
    | none => none

def put (new : FileTree) : List String → FileTree → FileTree
  | [], _ => new
  | name :: rest, .file _ _ => .directory [(name, put new rest empty)]
  | name :: rest, .directory entries =>
    .directory ((name, put new rest ((entries.lookup name).getD empty)) ::
      entries.filter (·.1 ≠ name))

def worldRead : Nat := 4

def ownerRead : Nat := 0x100

def ofBody (mode : Nat) (body : List UInt8) : FileTree :=
  .file mode (if mode &&& ownerRead = 0 then .error .accessDenied else .ok body)

def segments (path : String) : List String :=
  (splitAll '/' path.toList).map String.ofList

def names (path : String) : List String :=
  (segments path).filter fun s => s ≠ "" ∧ s ≠ "."

theorem find?_append (t : FileTree) (place names : List String) :
    t.find? (place ++ names) = (t.find? place).bind (·.find? names) := by
  induction place generalizing t with
  | nil => rw [List.nil_append, find?, Option.bind_some]
  | cons name place ih =>
    cases t with
    | file mode content => rfl
    | directory entries =>
      rw [List.cons_append, find?, find?]
      cases entries.lookup name with
      | none => rfl
      | some t => exact ih t

end FileTree
end EventHttp
