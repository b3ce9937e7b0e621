import Tangent.File.Bytes
import Tangent.NameMap

/-! Files by their paths below one directory. -/

namespace Tangent

/-- Why a path cannot be used. -/
inductive PathFault where
  | missing
  | directory
  | notDirectory
  | present
  | badName
  | longName
deriving DecidableEq, Repr

/-- The wording of a fault. -/
def PathFault.message : PathFault → String
  | .missing => "no such file or directory"
  | .directory => "is a directory"
  | .notDirectory => "not a directory"
  | .present => "file exists"
  | .badName => "invalid argument"
  | .longName => "file name too long"

/-- A path that could not be used, and for what. -/
structure DiskError where
  operation : String
  path : String
  fault : PathFault
deriving DecidableEq, Repr

/-- The message of a disk error. -/
def DiskError.message (e : DiskError) : String := s!"{e.operation} {e.path}: {e.fault.message}"

/-- The files there are, by the names on the way to them, joined by slashes. -/
abbrev Disk := NameMap Bytes

namespace Disk

/-- The most bytes that a name may have. -/
def maxName : Nat := 255

/-- The least number of bytes that is too many for a path. -/
def maxPath : Nat := 4096

/--
The names on the way to a file or a directory.

The directory all files are in has none. One above it is reached by two dots for each level, and
the way from the top of all directories starts with an empty name.
-/
abbrev Place := List String

/-- A place as it is filed under. -/
def nameOf (place : Place) : String := "/".intercalate place

/-- The directory that a place is in. -/
def above (place : Place) : Place :=
  if place == [""] then place
  else if place.all (· == "..") then ".." :: place
  else place.dropLast

/-- Whether a place is a directory: one above all files, or one on the way to a file. -/
def isDirectory (d : Disk) (place : Place) : Bool :=
  -- There are no empty directories: one is there because a file is below it.
  place == [""] || place.all (· == "..") ||
    d.names.any (fun name => name.startsWith (nameOf place ++ "/"))

/-- A place, if it is a directory. -/
def enter (d : Disk) (place : Place) : Except PathFault Place :=
  if d.isDirectory place then .ok place
  else if d.contains (nameOf place) then .error .notDirectory
  else .error .missing

/-- Takes one name of a path, which has to be looked up in a directory. -/
def step (d : Disk) (place : Place) (name : String) : Except PathFault Place := do
  let place ← d.enter place
  if name == "" || name == "." then return place
  else if name == ".." then return above place
  else if name.utf8ByteSize > maxName then throw .longName
  else return place ++ [name]

/-- Refuses a text that cannot be a path. -/
def checkPath (path : String) : Except PathFault Unit := do
  if path.contains '\x00' then throw .badName
  if path.isEmpty then throw .missing
  if maxPath ≤ path.utf8ByteSize then throw .longName

/-- Where a path starts. -/
def origin (path : String) : Place := if path.startsWith "/" then [""] else []

/-- The place that a path leads to, whose last name need not be there. -/
def resolve (d : Disk) (path : String) : Except PathFault Place := do
  checkPath path
  (path.splitOn "/").foldlM d.step (origin path)

/-- What a file holds. -/
def read (d : Disk) (path : String) : Except DiskError Bytes := do
  let place ← (d.resolve path).mapError (⟨"open", path, ·⟩)
  -- A directory can be opened, but not read.
  if d.isDirectory place then throw ⟨"read", path, .directory⟩
  match d.find? (nameOf place) with
  | some bytes => return bytes
  | none => throw ⟨"open", path, .missing⟩

/-- The place of a file that is to be made, and whether the path says that it is a directory. -/
def target (d : Disk) (path : String) : Except PathFault (Place × Bool) := do
  checkPath path
  let parts := path.splitOn "/"
  let names := parts.filter (· != "")
  let parent ← d.enter (← names.dropLast.foldlM d.step (origin path))
  let last := names.getLast?.getD "."
  -- Behind a slash at the end there is no name for a file.
  if last == "." || last == ".." || parts.getLast? == some "" then return (parent, true)
  let place ← d.step parent last
  return (place, d.isDirectory place)

/-- The disk after a file was written, whatever it held before. -/
def write (d : Disk) (path : String) (bytes : Bytes) : Except DiskError Disk := do
  let (place, isDirectory) ← (d.target path).mapError (⟨"open", path, ·⟩)
  if isDirectory then throw ⟨"open", path, .directory⟩
  return d.insert (nameOf place) bytes

/-- The names of a path without those that two dots take back. -/
def tidy (path : String) : List String :=
  (path.splitOn "/").foldl (fun names name =>
    if name == "" || name == "." then names
    else if name == ".." && (names.getLast?.getD "..") != ".." then names.dropLast
    else if name == ".." && path.startsWith "/" then names
    else names ++ [name]) []

/-- How many digits may be put behind a name to make it new. -/
def freshDigits : Nat := 10

/--
The disk after a file was replaced as a whole.

The new file is made under another name beside it, in the directory that the tidied path names,
and then takes its place.
-/
def replace (d : Disk) (path : String) (bytes : Bytes) : Except DiskError Disk := do
  let asError (fault : PathFault) : DiskError := ⟨"rename", path, fault⟩
  (checkPath path).mapError asError
  let parts := path.splitOn "/"
  let beside := (origin path) ++ tidy ("/".intercalate parts.dropLast)
  let _ ← (beside.foldlM d.step (origin path) >>= d.enter).mapError asError
  let name := (parts.filter (· != "")).getLast?.getD ""
  -- The other name is the same one with digits behind it, which makes it longer.
  if maxName < name.utf8ByteSize + freshDigits then throw (asError .longName)
  let (place, isDirectory) ← (d.target path).mapError asError
  if isDirectory then throw (asError .present)
  return d.insert (nameOf place) bytes

end Disk

end Tangent
