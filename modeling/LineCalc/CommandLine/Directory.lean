/-!
# Directories

The files that a command can see and change, below the directory it is called in. A path is followed
name by name, and every name but the last has to lead to a directory. Of what lies outside only the
directories and devices are known that every system has. A file made outside is not seen again.
-/

namespace LineCalc.CommandLine

/-- What a name stands for. -/
inductive Entry
  | file (content : List UInt8)
  | directory
deriving DecidableEq, Repr

/-- The names from the working directory down. -/
abbrev Location := List String

/-- Everything below the working directory. -/
structure Directory where
  entries : List (Location × Entry)
deriving DecidableEq, Repr

/-- Why a path leads nowhere. -/
inductive PathError
  | notFound
  | notDirectory
  | isDirectory
  | nameTooLong
deriving DecidableEq, Repr

/-- What a report says of a path that leads nowhere. -/
def PathError.message : PathError → String
  | notFound => "No such file or directory (os error 2)"
  | notDirectory => "Not a directory (os error 20)"
  | isDirectory => "Is a directory (os error 21)"
  | nameTooLong => "File name too long (os error 36)"

/-- Where a path is followed from: the working directory, the one above it, or the root of all. -/
inductive Base
  | working
  | above
  | root
deriving DecidableEq, Repr

/-- A place that a path leads to. -/
structure Place where
  base : Base
  names : Location
deriving DecidableEq, Repr

namespace Place

/-- The place that a name stands for at a place. -/
def child (p : Place) (name : String) : Place := { p with names := p.names ++ [name] }

/-- The directory that a place is in. The directories above the working one are not told apart. -/
def up (p : Place) : Place :=
  if p.names.isEmpty then { p with base := if p.base = .working then .above else p.base }
  else { p with names := p.names.dropLast }

/-- The device that takes and holds nothing. -/
def null : Place := ⟨.root, ["dev", "null"]⟩

/-- The device that has no room. -/
def full : Place := ⟨.root, ["dev", "full"]⟩

/-- Standard input, to which nothing is given. -/
def standardInput : Place := ⟨.root, ["dev", "stdin"]⟩

/-- The device that shows what is written to it. -/
def standardOutput : Place := ⟨.root, ["dev", "stdout"]⟩

/-- The devices that every system has. -/
def devices : List Place := [null, full, standardInput, standardOutput]

/-- The directories that every system has below its root. -/
def systemDirectories : List String :=
  ["bin", "dev", "etc", "lib", "proc", "run", "sbin", "sys", "tmp", "usr", "var"]

/-- What is known to stand at a place below the root of all. -/
def systemEntry? (p : Place) : Option Entry :=
  if p ∈ devices then some (.file [])
  else
    match p.names with
    | [] => some .directory
    | [name] => if name ∈ systemDirectories then some .directory else none
    | _ => none

end Place

namespace Directory

/-- The size of the longest name in bytes. -/
def maxNameBytes : Nat := 255

/-- The size of the longest path in bytes. -/
def maxPathBytes : Nat := 4095

/-- What stands at a location; the working directory itself is a directory. -/
def entry? (d : Directory) (location : Location) : Option Entry :=
  if location.isEmpty then some .directory else d.entries.lookup location

/-- The directory with an entry at a location, in the place of what was there. -/
def put (d : Directory) (location : Location) (entry : Entry) : Directory :=
  if d.entries.any (·.1 == location) then
    ⟨d.entries.map fun old => if old.1 == location then (location, entry) else old⟩
  else ⟨d.entries ++ [(location, entry)]⟩

/-- The names that the directory itself holds, and what they stand for. -/
def listing (d : Directory) : List (String × Entry) :=
  d.entries.filterMap fun
    | ([name], entry) => some (name, entry)
    | _ => none

/-- What stands at a place: inside the directory, above it or outside. -/
def entryAt? (d : Directory) (p : Place) : Option Entry :=
  match p.base with
  | .working => d.entry? p.names
  | .above => if p.names.isEmpty then some .directory else none
  | .root => p.systemEntry?

/-- The directory after a file was written at a place, which shows only if the place is inside. -/
def write (d : Directory) (p : Place) (content : List UInt8) : Directory :=
  match p.base with
  | .working => d.put p.names (.file content)
  | _ => d

/-- A place that more names may follow, since it is a directory. -/
def checkDirectory (d : Directory) (p : Place) : Except PathError Unit :=
  match d.entryAt? p with
  | none => .error .notFound
  | some (.file _) => .error .notDirectory
  | some .directory => .ok ()

/-- One name further, which only a directory allows. -/
def follow (d : Directory) (p : Place) (name : String) : Except PathError Place := do
  d.checkDirectory p
  if name = "" ∨ name = "." then return p
  else if name = ".." then return p.up
  else if maxNameBytes < name.utf8ByteSize then throw .nameTooLong
  else return p.child name

/-- The names of a path. There is an empty one where a slash starts or ends it. -/
def names (path : String) : List String := (path.toList.splitOn '/').map String.ofList

/-- Where a path starts: at the root, or in the directory itself. -/
def origin (path : String) : Place :=
  if path.toList.head? = some '/' then ⟨.root, []⟩ else ⟨.working, []⟩

/-- A path of no more than the greatest size. -/
def checkLength (path : String) : Except PathError Unit :=
  if maxPathBytes < path.utf8ByteSize then .error .nameTooLong else .ok ()

/-- The place of a path that is to be read. Something has to be there. -/
def find (d : Directory) (path : String) : Except PathError Place := do
  checkLength path
  let place ← (names path).foldlM d.follow (origin path)
  if (d.entryAt? place).isNone then throw .notFound
  return place

/--
The place of a path that is to be written. Nothing need be there, but a path that ends in a slash is
that of a directory, whatever its last name, and what is there must be none.
-/
def findForWriting (d : Directory) (path : String) : Except PathError Place := do
  checkLength path
  let names := ((names path).reverse.dropWhile (· = "")).reverse
  let parent ← names.dropLast.foldlM d.follow (origin path)
  d.checkDirectory parent
  if path.toList.getLast? = some '/' then throw .isDirectory
  let place ← d.follow parent (names.getLast?.getD "")
  if d.entryAt? place = some .directory then throw .isDirectory
  return place

end Directory

end LineCalc.CommandLine
