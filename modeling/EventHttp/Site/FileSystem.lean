import EventHttp.Site.FileTree

/-! Paths as they are written, and where they lead among the files of a machine.  A place is
told by the names on the way to it from the top. -/

namespace EventHttp

inductive PathPart where
  | top
  | here
  | up
  | name (name : String)
  deriving DecidableEq, Repr

namespace PathPart

def ofSegment? (segment : String) : Option PathPart :=
  if segment = "" ∨ segment = "." then none
  else if segment = ".." then some .up
  else some (.name segment)

end PathPart

namespace FilePath

def isAbsolute (path : String) : Bool :=
  path.toList.head? == some '/'

/-- The parts of a path.  Blank segments count for nothing, and `.` only where a path begins
with it. -/
def parts (path : String) : List PathPart :=
  (if isAbsolute path then [.top]
    else if (FileTree.segments path).head? = some "." then [.here]
    else []) ++ (FileTree.segments path).filterMap PathPart.ofSegment?

def push (path other : String) : String :=
  if isAbsolute other then other
  else if path = "" ∨ path.toList.getLast? = some '/' then path ++ other
  else path ++ "/" ++ other

def withoutLeadingSlashes (path : String) : String :=
  String.ofList (path.toList.dropWhile (· = '/'))

def extend? (file : String) : PathPart → Option String
  | .name name => some (push file name)
  | .here => some file
  | .up | .top => none

def below? (root path : String) : Option String :=
  (parts (withoutLeadingSlashes path)).foldlM extend? root

end FilePath

structure FileSystem where
  entries : List (String × FileTree)
  workingDirectory : List String

namespace FileSystem

def top (files : FileSystem) : FileTree :=
  .directory files.entries

def step? (files : FileSystem) (place : List String) (segment : String) : Option (List String) :=
  match files.top.find? place with
  | some (.directory entries) =>
    if segment = "" ∨ segment = "." then some place
    else if segment = ".." then some place.dropLast
    else if (entries.lookup segment).isSome then some (place ++ [segment]) else none
  | some (.file _ _) | none => none

def walk? (files : FileSystem) (path : String) : Option (List String) :=
  (FileTree.segments path).foldlM files.step?
    (if FilePath.isAbsolute path then [] else files.workingDirectory)

def open? (files : FileSystem) (path : String) : Option FileTree :=
  if path = "" then none else (files.walk? path).bind files.top.find?

end FileSystem
end EventHttp
