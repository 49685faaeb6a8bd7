/-!
# Locations

A location names a place in a program text for the reader of a diagnostic: the file, the line and
column, and what is written on that line.
-/

namespace TapeLang

/-- A place in a program text. -/
structure Location where
  file : String
  /-- Counted from one. -/
  line : Int
  /-- Counted from one, in code points. -/
  column : Int
  /-- The line without the blank space at its ends, or empty when there is no such line. -/
  statement : String
  deriving DecidableEq, Repr

end TapeLang
