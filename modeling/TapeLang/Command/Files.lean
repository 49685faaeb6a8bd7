import TapeLang.Text.PathName
import TapeLang.Text.Quoted

/-!
# Files by path

A tree of files is the list of what has been put into it, each under the names that lead to it from
the root. Putting a file under a path makes every directory that the path goes through, also one
that a double dot leaves again. A path is followed name by name: what is not there, and what is no
directory but has more names behind it, ends the search. What was put last under some names is what
lies there (`lookup_insert`).
-/

namespace TapeLang.Command

/-- Why a path does not lead to a file that can be read. -/
inductive FileError where
  | missing
  | notDirectory
  | isDirectory
  | nameTooLong
  deriving DecidableEq, Repr

/-- The number and the wording of an error. -/
def FileError.reason : FileError → Nat × String
  | .missing => (2, "No such file or directory")
  | .notDirectory => (20, "Not a directory")
  | .isDirectory => (21, "Is a directory")
  | .nameTooLong => (36, "File name too long")

/-- The wording of an error about a path. -/
def FileError.message (e : FileError) (path : String) : String :=
  s!"[Errno {e.reason.1}] {e.reason.2}: {Text.quote path}"

/-- A tree of files with contents of type `α`. An entry without a content is a directory. Names are
listed from the last one to the first, and of two entries with the same names the first counts. -/
structure Files (α : Type) where
  entries : List (List String × Option α) := []
  /-- The names of the directory that paths are relative to. -/
  home : List String := []

namespace Files

variable {α : Type}

/-- What lies at a place. -/
inductive Place (α : Type) where
  | file (content : α)
  | directory
  | nothing

/-- What lies under some names; the root is always a directory. -/
def lookup (files : Files α) (place : List String) : Place α :=
  if place.isEmpty then .directory
  else
    match files.entries.lookup place with
    | some (some content) => .file content
    | some none => .directory
    | none => .nothing

/-- Put an entry under some names. -/
def insert (files : Files α) (place : List String) (content : Option α) : Files α :=
  { files with entries := (place, content) :: files.entries }

/-- A file lies where it was put, unless that is the root. -/
theorem lookup_insert (files : Files α) {place : List String} (h : place ≠ []) (content : α) :
    (files.insert place (some content)).lookup place = .file content := by
  simp [lookup, insert, h]

/-- The names that a path starts from. -/
def start (files : Files α) (path : String) : List String :=
  if path.startsWith "/" then [] else files.home

/-- Go on from a place by some names, and make what is not there a directory. The result is the tree
and the place where the names lead. -/
def reach (files : Files α) (place : List String) : List String → Files α × List String
  | [] => (files, place)
  | name :: rest =>
    let place := Text.PathName.enter place name
    match files.lookup place with
    | .nothing => (files.insert place none).reach place rest
    | _ => files.reach place rest

/-- Put a file under a path. -/
def put (files : Files α) (path : String) (content : α) : Files α :=
  let names := Text.PathName.names path
  let (files, place) := files.reach (files.start path) names.dropLast
  files.insert (Text.PathName.enter place (names.getLast?.getD "")) (some content)

/-- A tree that holds a directory and nothing else; paths are relative to it. -/
def empty (directory : String) : Files α :=
  let (files, home) := reach {} [] (Text.PathName.names directory)
  { files with home }

/-- The longest name, in bytes. -/
def maxName : Nat := 255

/-- The longest path, in bytes. -/
def maxPath : Nat := 4095

/-- Follow names from a place. -/
def follow (files : Files α) (place : List String) : List String → Except FileError α
  | [] =>
    match files.lookup place with
    | .file content => .ok content
    | .directory => .error .isDirectory
    | .nothing => .error .missing
  | name :: rest =>
    match files.lookup place with
    | .file _ => .error .notDirectory
    | .nothing => .error .missing
    | .directory =>
      if maxName < name.utf8ByteSize then .error .nameTooLong
      else files.follow (Text.PathName.enter place name) rest

/-- The file that a path leads to. -/
def find (files : Files α) (path : String) : Except FileError α :=
  if path.isEmpty then .error .missing
  else if maxPath < path.utf8ByteSize then .error .nameTooLong
  else files.follow (files.start path) (Text.PathName.names path)

end Files

end TapeLang.Command
