import EventHttp.Site.FileSystem

/-! Where bodies come from: the files below a root, or documents in memory. -/

namespace EventHttp

inductive Lookup where
  | found (body : List UInt8)
  | notFound
  | forbidden
  deriving DecidableEq, Repr

namespace Lookup

def ofRead : Except IoCause (List UInt8) → Lookup
  | .ok body => .found body
  | .error cause => if cause = .accessDenied then .forbidden else .notFound

def ofEntry : Option FileTree → Lookup
  | none => .notFound
  | some (.directory _) => .notFound
  | some (.file mode content) =>
    if mode &&& FileTree.worldRead = 0 then .forbidden else ofRead content

end Lookup

structure FileSite where
  files : FileSystem
  root : String

def FileSite.lookup (site : FileSite) (path : String) : Lookup :=
  match FilePath.below? site.root path with
  | none => .forbidden
  | some file => .ofEntry (site.files.open? file)

def FileTree.lookup (t : FileTree) : String → Lookup :=
  FileSite.lookup ⟨⟨[("site", t)], []⟩, "/site"⟩

structure Documents where
  documents : List (String × List UInt8)
  forbidden : List String

namespace Documents

def lookup (d : Documents) (path : String) : Lookup :=
  if path ∈ d.forbidden then .forbidden
  else match d.documents.reverse.lookup path with
    | some body => .found body
    | none => .notFound

end Documents
end EventHttp
