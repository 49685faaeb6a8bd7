/-!
# Circular tapes

A tape is a ring of byte cells with a pointer at one of them. Both are circular: a move past either
end arrives at the other, and a cell counted past its greatest value starts again at zero.
-/

namespace TapeLang

/-- A ring of `length` byte cells. The pointer is always at one of them, so a tape is never
empty. -/
structure Tape where
  length : Nat
  cells : Vector UInt8 length
  pointer : Fin length

/-- Why there is no tape of a given geometry. -/
inductive TapeError where
  /-- The length is zero or negative. -/
  | empty
  /-- The pointer is not at a cell. -/
  | outside (pointer length : Int)
  deriving DecidableEq, Repr

/-- The wording of a refusal. -/
def TapeError.message : TapeError → String
  | .empty => "Tape length must be positive"
  | .outside pointer length => s!"Pointer {pointer} outside tape of length {length}"

namespace Tape

/-- A zeroed tape of any geometry that makes sense; the length is looked at before the pointer. -/
def ofGeometry (length pointer : Int) : Except TapeError Tape :=
  if length ≤ 0 then .error .empty
  else if h : 0 ≤ pointer ∧ pointer < length then
    .ok ⟨length.toNat, Vector.replicate _ 0, ⟨pointer.toNat, by omega⟩⟩
  else .error (.outside pointer length)

/-- The number of cells of a tape that nobody asked for by length. -/
def defaultLength : Nat := 30000

/-- A zeroed tape of the usual length with its pointer at the first cell. -/
def fresh : Tape :=
  ⟨defaultLength, Vector.replicate _ 0, ⟨0, by decide⟩⟩

/-- A tape has at least one cell. -/
theorem length_pos (t : Tape) : 0 < t.length := t.pointer.pos

instance : Inhabited Tape := ⟨fresh⟩

/-- The value of the cell at the pointer. -/
def current (t : Tape) : UInt8 := t.cells[t.pointer.val]

/-- Change the cell at the pointer. -/
def modify (f : UInt8 → UInt8) : Tape → Tape
  | ⟨length, cells, pointer⟩ =>
    ⟨length, cells.set pointer.val (f cells[pointer.val]), pointer⟩

/-- Move the pointer one cell to the right, from the last cell to the first. -/
def right : Tape → Tape
  | ⟨length, cells, pointer⟩ =>
    ⟨length, cells, ⟨(pointer + 1) % length, Nat.mod_lt _ pointer.pos⟩⟩

/-- Move the pointer one cell to the left, from the first cell to the last. -/
def left : Tape → Tape
  | ⟨length, cells, pointer⟩ =>
    ⟨length, cells, ⟨(pointer + (length - 1)) % length, Nat.mod_lt _ pointer.pos⟩⟩

/-- Only a move to the right from the last cell leads elsewhere than to the cell behind. -/
theorem val_right (t : Tape) :
    t.right.pointer.val = if t.pointer.val + 1 = t.length then 0 else t.pointer.val + 1 := by
  obtain ⟨n, cells, p, hp⟩ := t
  have hval : (right ⟨n, cells, p, hp⟩).pointer.val = (p + 1) % n := rfl
  rw [hval]
  simp only
  split
  · next h => rw [h, Nat.mod_self]
  · next h => rw [Nat.mod_eq_of_lt (by omega)]

/-- Only a move to the left from the first cell leads elsewhere than to the cell before. -/
theorem val_left (t : Tape) :
    t.left.pointer.val = if t.pointer.val = 0 then t.length - 1 else t.pointer.val - 1 := by
  obtain ⟨n, cells, p, hp⟩ := t
  have hval : (left ⟨n, cells, p, hp⟩).pointer.val = (p + (n - 1)) % n := rfl
  rw [hval]
  simp only
  split
  · next h => rw [h, Nat.zero_add, Nat.mod_eq_of_lt (by omega)]
  · next h =>
    have hlap : p + (n - 1) = p - 1 + n := by omega
    rw [hlap, Nat.add_mod_right, Nat.mod_eq_of_lt (by omega)]

/-- Write a cell by its index; there is nothing to write outside the tape. -/
def write (index : Nat) (value : UInt8) : Tape → Tape
  | ⟨length, cells, pointer⟩ =>
    if h : index < length then ⟨length, cells.set index value, pointer⟩
    else ⟨length, cells, pointer⟩

/-- Put the pointer at the cell of this index; a pointer never leaves the tape. -/
def point (index : Nat) (t : Tape) : Tape :=
  if h : index < t.length then { t with pointer := ⟨index, h⟩ } else t

/-- The index of the cell at an offset from the first one, counted around the ring either way. -/
def spot (t : Tape) (i : Int) : Fin t.length :=
  ⟨(i % t.length).toNat, by
    have h := t.length_pos
    have := Int.emod_lt_of_pos i (b := t.length) (by omega)
    have := Int.emod_nonneg i (b := t.length) (by omega)
    omega⟩

/-- The value of the cell at an offset from the first one, counted around the ring either way. -/
def around (t : Tape) (i : Int) : UInt8 := t.cells[(t.spot i).val]

/-- The cells that are not zero, each with its index, in ascending order. -/
def marks (t : Tape) : List (Nat × UInt8) :=
  (List.finRange t.length).filterMap fun i =>
    let value : UInt8 := t.cells[i.val]
    if value = 0 then none else some (i.val, value)

@[simp] theorem length_modify (f : UInt8 → UInt8) (t : Tape) :
    (t.modify f).length = t.length := rfl

@[simp] theorem length_right (t : Tape) : t.right.length = t.length := rfl

@[simp] theorem length_left (t : Tape) : t.left.length = t.length := rfl

/-- Counted from the first cell, the pointer's own offset leads to the current cell. -/
theorem around_pointer (t : Tape) : t.around t.pointer.val = t.current := by
  have h : t.spot t.pointer.val = t.pointer := by
    apply Fin.ext
    simp [spot, Int.emod_eq_of_lt (Int.natCast_nonneg _) (Int.ofNat_lt.2 t.pointer.isLt)]
  simp only [around, current, h]

@[simp] theorem current_modify (f : UInt8 → UInt8) (t : Tape) :
    (t.modify f).current = f t.current := by
  simp [current, modify]

end Tape

end TapeLang
