import TapeLang.Tape

/-!
# Views of a tape

A window shows the cells around the pointer, wrapping as moves do. A snapshot is the window as
text, the pointer's cell in brackets. A dump shows the used part of the tape in rows of sixteen.
-/

namespace TapeLang.Tape

/-- How many cells on either side of the pointer a view shows unless asked otherwise. -/
def usualRadius : Int := 8

/-- The `2 * radius + 1` cells around the pointer, from left to right; none for a negative
radius. -/
def window (t : Tape) (radius : Int) : List UInt8 :=
  (List.range (2 * radius + 1).toNat).map fun (k : Nat) => t.around (t.pointer - radius + k)

/-- The texts of a snapshot. -/
structure Snapshot where
  pointer : String
  cell : String
  window : String
  deriving DecidableEq, Repr

/-- A snapshot: the window's values parted by spaces, the pointer's own one in brackets. -/
def snapshot (t : Tape) (radius : Int) : Snapshot where
  pointer := toString t.pointer.val
  cell := toString t.current.toNat
  window := " ".intercalate <| (t.window radius).zipIdx.map fun (v, k) =>
    if (k : Int) = radius then s!"[{v.toNat}]" else toString v.toNat

/-- How many cells one row of a dump shows. -/
def rowWidth : Nat := 16

/-- A number padded on the left to a width. -/
def padded (pad : Char) (width n : Nat) : String :=
  let digits := toString n
  String.ofList (List.replicate (width - digits.length) pad) ++ digits

/-- One past the last cell of a dump: it reaches the last cell that is not zero and the pointer. -/
def used (t : Tape) : Nat :=
  max ((t.marks.getLast?.map Prod.fst).getD 0) t.pointer + 1

/-- The text of one cell in a dump: three places, in brackets at the pointer. -/
def cellText (t : Tape) (i : Nat) : String :=
  let value := padded ' ' 3 (t.around i).toNat
  if i = t.pointer.val then s!"[{value}]" else s!" {value} "

/-- The row of a dump that starts at a cell, when the dump ends before the cell `stop`. -/
def row (t : Tape) (stop start : Nat) : String :=
  let cells := List.range' start (min rowWidth (stop - start))
  padded '0' 5 start ++ ":" ++ String.join (cells.map t.cellText)

/-- The used part of the tape in rows, each headed by the index of its first cell. -/
def dump (t : Tape) : String :=
  let stop := t.used
  let rows := (stop + rowWidth - 1) / rowWidth
  "\n".intercalate <| (List.range rows).map fun k => t.row stop (rowWidth * k)

end TapeLang.Tape
