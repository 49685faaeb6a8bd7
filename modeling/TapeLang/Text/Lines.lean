/-!
# Lines and blank space

A text is cut into lines at newline characters only, so a carriage return or any other line
separator is an ordinary character of its line. Blank space at the ends of a line is the whitespace
of the Unicode standard together with the four information separators.
-/

namespace TapeLang.Text

/-- The code points that count as blank, as inclusive ranges in ascending order. -/
def blankRanges : List (Nat × Nat) :=
  [(0x09, 0x0D), (0x1C, 0x20), (0x85, 0x85), (0xA0, 0xA0), (0x1680, 0x1680), (0x2000, 0x200A),
   (0x2028, 0x2029), (0x202F, 0x202F), (0x205F, 0x205F), (0x3000, 0x3000)]

/-- A character is blank when its code point lies in one of `blankRanges`. -/
def isBlank (c : Char) : Bool :=
  blankRanges.any fun r => r.1 ≤ c.toNat && c.toNat ≤ r.2

/-- Every character that is whitespace in the narrow sense is blank. -/
theorem isBlank_of_isWhitespace {c : Char} (h : c.isWhitespace = true) : isBlank c = true := by
  simp only [Char.isWhitespace, Bool.or_eq_true, decide_eq_true_eq] at h
  rcases h with ((h | h) | h) | h <;> subst h <;> decide

/-- A newline is blank. -/
theorem isBlank_newline : isBlank '\n' = true := by decide

/-- The characters between the first and the last one that is not blank. -/
def strip (cs : List Char) : List Char :=
  ((cs.dropWhile isBlank).reverse.dropWhile isBlank).reverse

/-- Put a character in front of a text that is already cut into lines. -/
def addFront (c : Char) : List (List Char) → List (List Char)
  | [] => if c = '\n' then [[], []] else [[c]]
  | l :: rest => if c = '\n' then [] :: l :: rest else (c :: l) :: rest

/-- The lines of a text; a text with `n` newlines has `n + 1` lines. -/
def lines (cs : List Char) : List (List Char) :=
  cs.foldr addFront [[]]

@[simp] theorem lines_nil : lines [] = [[]] := rfl

@[simp] theorem lines_cons (c : Char) (cs : List Char) : lines (c :: cs) = addFront c (lines cs) :=
  rfl

/-- A text always has a first line. -/
theorem lines_ne_nil (cs : List Char) : lines cs ≠ [] := by
  cases cs with
  | nil => simp
  | cons c cs =>
    rw [lines_cons]
    cases lines cs <;> simp only [addFront] <;> split <;> simp

/-- A text in which every line ends with a newline alone: a carriage return becomes one, together
with a newline right after it. -/
def plainNewlines : List Char → List Char
  | '\r' :: '\n' :: cs => '\n' :: plainNewlines cs
  | '\r' :: cs => '\n' :: plainNewlines cs
  | c :: cs => c :: plainNewlines cs
  | [] => []

end TapeLang.Text
