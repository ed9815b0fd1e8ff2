import FiniteState.Description.Loading
import FiniteState.Text.Quoted
import FiniteState.Text.Utf8

/-!
# Files

A disk gives the bytes of the file at a path, or says why there are none. The bytes are read as
UTF-8, and every line end becomes a line feed.

A disk can be made of a list of files. Their directories exist too, and nothing else does. Two paths
may lead to one place, since empty parts and `.` in them do not matter and `..` leads one directory
up, so files and paths are compared by their places.

## Main definitions

* `Disk`: What is found at each path.
* `Place`: Where a path leads to.
* `Disk.ofFiles`: The disk with certain files on it.
* `Disk.load`: The items of a file.
-/

namespace FiniteState

/-- Why a path has no bytes to read. -/
inductive PathProblem
  | missing
  | notDirectory
  | directory
  | nameTooLong
  | nullCharacter
deriving DecidableEq

/-- What is found at each path: the bytes of a file, or why there are none. -/
abbrev Disk := String → Except PathProblem (List Nat)

/-- Why a file cannot be loaded. -/
inductive ReadFault
  /-- A path has no bytes to read. -/
  | path (problem : PathProblem) (path : String)
  /-- The bytes are not UTF-8. -/
  | encoding (fault : Utf8.Fault)
deriving DecidableEq

/-- The wording of a fault. -/
def ReadFault.message : ReadFault → String
  | path .missing name => "[Errno 2] No such file or directory: " ++ Text.quoted name
  | path .notDirectory name => "[Errno 20] Not a directory: " ++ Text.quoted name
  | path .directory name => "[Errno 21] Is a directory: " ++ Text.quoted name
  | path .nameTooLong name => "[Errno 36] File name too long: " ++ Text.quoted name
  | path .nullCharacter _ => "embedded null byte"
  | encoding fault => fault.message

/-- A place that a path leads to: the names on the way to it, with the last one first. The way
    begins at the root if the first name is empty, and else where paths without a slash at their
    beginning do. The name `..` occurs only where it leads above that. -/
abbrev Place := List (List Char)

namespace Place

/-- The name of the directory above. -/
def up : List Char := ['.', '.']

/-- The directory at the top. -/
def root : Place := [[]]

/-- The place that one more part of a path leads to. There is nothing above the root. -/
def enter (here : Place) (part : List Char) : Place :=
  if part = [] ∨ part = ['.'] then here
  else if part = up then
    match here with
    | [] => [up]
    | name :: above =>
      if name = up then up :: here else if name = [] then here else above
  else part :: here

/-- The place that a path begins at. -/
def start (path : String) : Place :=
  match path.toList with
  | '/' :: _ => root
  | _ => []

/-- The places that parts of a path lead through before the last of them. -/
def through (here : Place) : List (List Char) → List Place
  | [] => []
  | part :: rest => here :: through (enter here part) rest

end Place

namespace Disk

/-- The most bytes of a path. -/
def maxPathBytes : Nat := 4095

/-- The most bytes of a part of a path. -/
def maxPartBytes : Nat := 255

/-- The parts of a path between slashes. -/
def parts (path : String) : List (List Char) :=
  Text.cutAt ['/'] path.toList

/-- The place of a path. -/
def place (path : String) : Place :=
  (parts path).foldl Place.enter (Place.start path)

/-- Whether a place is a directory if certain places are. The directories at the beginning of paths
    and above exist in any case. -/
def isDirectory (directories : List Place) (here : Place) : Bool :=
  here = Place.root || here.all (· = Place.up) || directories.contains here

/-- Follow the parts of a path from a directory. -/
def follow (files : List (Place × List Nat)) (directories : List Place) :
    Place → List (List Char) → Except PathProblem (List Nat)
  | _, [] => .error .directory
  | here, part :: rest =>
    if maxPartBytes < (String.ofList part).utf8ByteSize then .error .nameTooLong
    else
      let there := here.enter part
      match files.lookup there with
      | some bytes => if rest.isEmpty then .ok bytes else .error .notDirectory
      | none =>
        if isDirectory directories there then follow files directories there rest
        else .error .missing

/-- The disk with certain files on it. Of two files at one place the later one is found. -/
def ofFiles (files : List (String × List Nat)) : Disk := fun path =>
  if path.toList.contains '\x00' then .error .nullCharacter
  else if path.isEmpty then .error .missing
  else if maxPathBytes < path.utf8ByteSize then .error .nameTooLong
  else
    let directories := files.flatMap fun file => Place.through (Place.start file.1) (parts file.1)
    let places := files.reverse.map fun file => (place file.1, file.2)
    follow places directories (Place.start path) (parts path)

/-- The text of a file. -/
def readText (disk : Disk) (path : String) : Except ReadFault (List Char) := do
  let bytes ← (disk path).mapError (.path · path)
  let text ← (Utf8.decode bytes).mapError .encoding
  return Text.unifyLineEnds text

/-- The items of a file. -/
def load (disk : Disk) (path : String) : Except ReadFault Loaded := do
  let content ← disk.readText path
  return Loaded.ofContent path.toList content

end Disk

end FiniteState
