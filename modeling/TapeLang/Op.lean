/-!
# Operations

The six instructions that stand alone, each written as one character.
-/

namespace TapeLang

/-- An instruction other than a loop. -/
inductive Op where
  /-- Move the pointer one cell to the left. -/
  | left
  /-- Move the pointer one cell to the right. -/
  | right
  /-- Add one to the current cell. -/
  | increment
  /-- Take one from the current cell. -/
  | decrement
  /-- Write the character whose code is the current cell. -/
  | output
  /-- Replace the current cell by input, which no run supports. -/
  | input
  deriving DecidableEq, Repr

namespace Op

/-- Every operation, in the order in which the type lists them. -/
def all : List Op := [.left, .right, .increment, .decrement, .output, .input]

/-- The character that an operation is written as. -/
def symbol : Op → Char
  | .left => '<'
  | .right => '>'
  | .increment => '+'
  | .decrement => '-'
  | .output => '.'
  | .input => ','

/-- The operation that a character stands for. -/
def ofChar? (c : Char) : Option Op :=
  all.find? fun o => o.symbol = c

@[simp] theorem ofChar?_symbol (o : Op) : ofChar? o.symbol = some o := by
  cases o <;> decide

/-- A character stands for an operation exactly when the operation is written as that character. -/
theorem ofChar?_eq_some_iff {c : Char} {o : Op} : ofChar? c = some o ↔ o.symbol = c := by
  constructor
  · intro h
    simpa using List.find?_some h
  · rintro rfl
    exact ofChar?_symbol o

end Op

end TapeLang
