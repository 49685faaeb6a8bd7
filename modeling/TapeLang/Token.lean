import TapeLang.Op
import TapeLang.Text.Lines

/-!
# Tokens

A token is an instruction character with the place where it stands. Reading keeps the eight
instruction characters in order and passes over everything else; a last token marks the end of the
text. Lines and columns count from one, and columns count code points.
-/

namespace TapeLang

/-- What a token is: an operation, a bracket, the end of the text, or a token of no known kind. -/
inductive Token.Kind where
  | op (o : Op)
  | opening
  | closing
  | finish
  | other
  deriving DecidableEq, Repr

/-- The kind of an instruction character; any other character is commentary. -/
def Token.Kind.ofChar? (c : Char) : Option Token.Kind :=
  if c = '[' then some .opening
  else if c = ']' then some .closing
  else (Op.ofChar? c).map .op

/-- A token and the line and column at which it stands. -/
structure Token where
  kind : Token.Kind
  line : Int
  column : Int
  deriving DecidableEq, Repr

/-- Reading in progress: the place of the next character and the tokens found so far. -/
structure Scan where
  line : Nat := 1
  column : Nat := 1
  tokens : Array Token := #[]

/-- Note the token that a character stands for, if any. -/
def Scan.keep (s : Scan) (c : Char) : Scan :=
  match Token.Kind.ofChar? c with
  | some k => { s with tokens := s.tokens.push ⟨k, s.line, s.column⟩ }
  | none => s

/-- Move past a character; only a newline begins another line. -/
def Scan.advance (s : Scan) (c : Char) : Scan :=
  if c = '\n' then { s with line := s.line + 1, column := 1 }
  else { s with column := s.column + 1 }

/-- Read a run of characters. -/
def Scan.over (s : Scan) (cs : List Char) : Scan :=
  cs.foldl (fun s c => (s.keep c).advance c) s

@[simp] theorem Scan.over_nil (s : Scan) : s.over [] = s := rfl

@[simp] theorem Scan.over_cons (s : Scan) (c : Char) (cs : List Char) :
    s.over (c :: cs) = ((s.keep c).advance c).over cs := rfl

theorem Scan.over_append (s : Scan) (as bs : List Char) :
    s.over (as ++ bs) = (s.over as).over bs := List.foldl_append

/-- The tokens of a text, closed by one that marks its end. -/
def Token.scan (text : String) : Array Token :=
  let s := Scan.over {} text.toList
  s.tokens.push ⟨.finish, s.line, s.column⟩

end TapeLang
