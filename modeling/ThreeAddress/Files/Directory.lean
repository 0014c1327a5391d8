import ThreeAddress.Files.Host

namespace ThreeAddress.Files

/-!
# Directories in memory

A directory holds entries by their places. It serves as the working directory of
a run that touches no disk. A path is gone name by name: every name but the last
has to lead to a directory, and what the last one may be depends on whether the
file is read or written. The directories above the working directory exist, and
hold nothing at first.
-/

inductive Entry where
  | file (bytes : ByteArray)
  | directory

/-- Where names are counted from: so many levels above the working directory, or the root
of all directories. -/
inductive Base where
  | ancestor (levels : Nat)
  | root
deriving DecidableEq

/-- The root is above itself. -/
def Base.up : Base → Base
  | .ancestor levels => .ancestor (levels + 1)
  | .root => .root

/-- The names that lead from a base to a place. -/
structure Place where
  base : Base
  names : List String := []
deriving DecidableEq

namespace Place

def workingDirectory : Place := { base := .ancestor 0 }

def root : Place := { base := .root }

def isBase (place : Place) : Bool :=
  place.names.isEmpty

def up (place : Place) : Place :=
  if place.isBase then { base := place.base.up }
  else { place with names := place.names.dropLast }

def nameLimit : Nat := 255

def child (place : Place) (name : String) : Except Fault Place :=
  if nameLimit < name.utf8ByteSize then .error .nameTooLong
  else .ok { place with names := place.names ++ [name] }

def contains (outer inner : Place) : Bool :=
  outer.base == inner.base && outer.names.isPrefixOf inner.names

end Place

/-- Where a path ends: in a directory whatever there is, or at a name in a directory. A
slash behind the name asks for a directory. -/
inductive Destination where
  | directory
  | name (parent : Place) (name : String) (slash : Bool)

structure Directory where
  entries : List (Place × Entry) := []

namespace Directory

/-- What stands at a place. There is a directory wherever an entry's names go through. -/
def entry? (directory : Directory) (place : Place) : Option Entry :=
  if place.isBase then some .directory
  else
    match directory.entries.lookup place with
    | some entry => some entry
    | none =>
        if directory.entries.any (place.contains ·.1) then some .directory else none

def namesOf (path : String) : List String :=
  (path.splitOn "/").filter (· ≠ "")

/-- A working directory with these files, by their paths in it. -/
def ofFiles (files : List (String × Entry)) : Directory :=
  ⟨files.map fun (path, entry) =>
    ({ Place.workingDirectory with names := (namesOf path).filter (· ≠ ".") }, entry)⟩

/-- Goes from a directory to the directory that a name leads to. -/
def enter (directory : Directory) (place : Place) (name : String) : Except Fault Place :=
  if name = "." then .ok place
  else if name = ".." then .ok place.up
  else do
    let next ← place.child name
    match directory.entry? next with
    | some .directory => return next
    | some (.file _) => throw .notDirectory
    | none => throw .missing

/-- The number of bytes that is too many for a path. -/
def pathLimit : Nat := 4096

/-- Where a path starts: at the root if a slash comes first. -/
def start (path : String) : Place :=
  if path.startsWith "/" then .root else .workingDirectory

def resolve (directory : Directory) (path : String) : Except Fault Destination :=
  if path.contains '\x00' then .error .nulInName
  else if path = "" then .error .missing
  else if pathLimit ≤ path.utf8ByteSize then .error .nameTooLong
  else do
    let names := namesOf path
    let parent ← names.dropLast.foldlM directory.enter (start path)
    match names.getLast? with
    | none | some "." | some ".." => return .directory
    | some name => return .name parent name (path.endsWith "/")

def readBytes (directory : Directory) (path : String) : Except Fault ByteArray := do
  match ← directory.resolve path with
  | .directory => throw .isDirectory
  | .name parent name slash =>
      match directory.entry? (← parent.child name) with
      | some (.file bytes) => if slash then throw .notDirectory else return bytes
      | some .directory => throw .isDirectory
      | none => throw .missing

/-- Makes or replaces a file. A slash behind its name is refused before the name is looked
at. -/
def writeBytes (directory : Directory) (path : String) (bytes : ByteArray) :
    Except Fault Directory := do
  match ← directory.resolve path with
  | .directory | .name _ _ true => throw .isDirectory
  | .name parent name false =>
      let place ← parent.child name
      match directory.entry? place with
      | some .directory => throw .isDirectory
      | some (.file _) | none =>
          return ⟨(place, .file bytes) :: directory.entries.filter (·.1 ≠ place)⟩

/-- The host whose working directory is kept as the state of a run. -/
def host (input : ByteArray) : Host (StateM Directory) where
  readInput := return decodeText input
  readFile path := do
    match (← get).readBytes path with
    | .ok bytes => return decodeText bytes
    | .error fault => return .error fault.reason
  writeFile path text := do
    match (← get).writeBytes path text.toUTF8 with
    | .ok directory =>
        set directory
        return .ok ()
    | .error fault => return .error fault.reason

end Directory

end ThreeAddress.Files
