/-!
# Path names

A path name is a list of names parted by slashes. A name is made absolute by what it is relative to,
and then cleaned as text alone: empty names and single dots go, and a double dot takes the name
before it away. At the root a double dot goes without taking anything.
-/

namespace TapeLang.Text.PathName

/-- The names of a path, in order. -/
def names (path : String) : List String := (path.toList.splitOn '/').map String.ofList

/-- Add a name to the names of a clean absolute path, the last one first. -/
def enter (clean : List String) (name : String) : List String :=
  if name = "" ∨ name = "." then clean
  else if name = ".." then clean.tail
  else name :: clean

/-- The slashes that an absolute path begins with: two stay two, any other number becomes one. -/
def root (path : String) : String :=
  if path.startsWith "//" && !path.startsWith "///" then "//" else "/"

/-- The absolute path of these clean names, the last one first. -/
def render (root : String) (clean : List String) : String :=
  root ++ "/".intercalate clean.reverse

/-- A path made absolute under an absolute directory, and cleaned. -/
def absolute (directory path : String) : String :=
  if path.startsWith "/" then render (root path) ((names path).foldl enter [])
  else render (root directory) ((names path).foldl enter ((names directory).foldl enter []))

/-- The name that locations carry: an angle bracket marks a text that is in no file. -/
def ofSource (directory name : String) : String :=
  if name.startsWith "<" then name else absolute directory name

end TapeLang.Text.PathName
