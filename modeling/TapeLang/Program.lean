import TapeLang.Node
import TapeLang.Token

/-!
# Reading programs

A token list becomes a program by matching brackets. A cursor moves over the tokens from left to
right; the body of a loop is the span up to the bracket that closes it, and the cursor goes on
after that bracket. A closing bracket with no loop to close is passed over, and so is a token of
no known kind. The last token is never part of a statement, whatever it is: it only tells where
the text ends.

Two things can be wrong. A loop whose brackets do not close is refused at its opening bracket, and
a loop inside too many others is refused with the whole text. What stands further to the left is
found first, and an unclosed loop is found before anything in its body is read.
-/

namespace TapeLang

/-- Why a token list is not a program. -/
inductive ParseError where
  /-- The loop opened at this line and column is not closed. -/
  | notClosed (file : String) (line column : Int)
  /-- Loops are nested more deeply than `Program.maxNesting`. -/
  | tooDeep (file : String)
  /-- There is no token at all, hence no end of the text. -/
  | noTokens
  deriving DecidableEq, Repr

/-- The wording of a refusal. -/
def ParseError.message : ParseError → String
  | .notClosed file line column => s!"Loop not closed at {file}:{line}:{column}"
  | .tooDeep file => s!"Loops nested too deeply in {file}"
  | .noTokens => "list index out of range"

/-- The tokens to read and what locations are made from. -/
structure Source where
  tokens : Array Token
  /-- The file that locations name. -/
  file : String
  /-- The lines of the text, without the blank space at their ends. -/
  lines : Array String

namespace Source

/-- Tokens that belong to a text of these lines. -/
def ofLines (tokens : Array Token) (file : String) (lines : List (List Char)) : Source :=
  ⟨tokens, file, (lines.map fun l => String.ofList (Text.strip l)).toArray⟩

/-- The tokens of a text. -/
def ofText (text file : String) : Source :=
  ofLines (Token.scan text) file (Text.lines text.toList)

/-- The kind of the token at an index; past the end there is nothing of interest. -/
def kind (t : Source) (i : Nat) : Token.Kind :=
  (t.tokens[i]?.map Token.kind).getD .other

/-- The text of a line, by its number; a line that does not exist is empty. -/
def statement (t : Source) (line : Int) : String :=
  if line < 1 then "" else (t.lines[(line - 1).toNat]?).getD ""

/-- The place of a token. -/
def location (t : Source) (k : Token) : Location :=
  ⟨t.file, k.line, k.column, t.statement k.line⟩

/-- The place of the token at an index. -/
def place (t : Source) (i : Nat) : Location :=
  t.location (t.tokens[i]?.getD ⟨.other, 0, 0⟩)

/-- The index of the closing bracket that brings the nesting level to zero, searched from `i` up to
but not including `stop`. -/
def closer? (t : Source) (stop : Nat) (level i : Nat) : Option Nat :=
  if i < stop then
    match t.kind i with
    | .opening => t.closer? stop (level + 1) (i + 1)
    | .closing => if level ≤ 1 then some i else t.closer? stop (level - 1) (i + 1)
    | _ => t.closer? stop level (i + 1)
  else none
termination_by stop - i

/-- A closing bracket is found at or after the start of the search and before its end. -/
theorem closer?_bounds {t : Source} {stop level i p : Nat}
    (h : t.closer? stop level i = some p) : i ≤ p ∧ p < stop := by
  fun_induction closer? t stop level i with
  | case1 level i _ _ ih => have := ih h; omega
  | case2 level i hi _ _ => simp only [Option.some.injEq] at h; omega
  | case3 level i _ _ _ ih => have := ih h; omega
  | case4 level i _ _ _ ih => have := ih h; omega
  | case5 => simp at h

end Source

namespace Program

/-- The greatest number of loops inside one another that a program may have. -/
def maxNesting : Nat := 490

/-- Read the tokens from `i` up to `stop`, inside `depth` loops, after the statements in `done`
(the last one first). Returns the statements in order and the cursor. -/
def readSpan (t : Source) (stop depth i : Nat) (done : List Node) :
    Except ParseError (List Node × Nat) :=
  if i < stop then
    match t.kind i with
    | .op o => readSpan t stop depth (i + 1) (.op o (some (t.place i)) :: done)
    | .opening =>
      match _closed : t.closer? stop 1 (i + 1) with
      | none => .error (.notClosed t.file (t.place i).line (t.place i).column)
      | some p =>
        if maxNesting ≤ depth then .error (.tooDeep t.file)
        else match readSpan t p (depth + 1) (i + 1) [] with
          | .error e => .error e
          | .ok (body, _) => readSpan t stop depth (p + 1) (.loop (t.place i) body :: done)
    | _ => readSpan t stop depth (i + 1) done
  else .ok (done.reverse, i)
termination_by stop - i
decreasing_by
  all_goals try have := Source.closer?_bounds _closed
  all_goals omega

/-- The program of a token list. -/
def ofSource (t : Source) : Except ParseError Program :=
  if t.tokens.size = 0 then .error .noTokens
  else
    let last := t.tokens.size - 1
    match readSpan t last 0 0 [] with
    | .error e => .error e
    | .ok (statements, _) => .ok ⟨statements, t.place last⟩

/-- The program of a text; `file` is the name that its locations carry. -/
def parse (text file : String) : Except ParseError Program :=
  ofSource (Source.ofText text file)

end Program

end TapeLang
