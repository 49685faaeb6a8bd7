import TapeLang.Location
import TapeLang.Op

/-!
# Program trees

A program is a list of nodes: operations and loops, each with its place in the text. The written
form of a tree is the sequence of instruction characters that it was read from.
-/

namespace TapeLang

/-- A statement of a program. -/
inductive Node where
  /-- A single operation. -/
  | op (o : Op) (location : Option Location)
  /-- A loop, placed at its opening bracket. -/
  | loop (location : Location) (body : List Node)
  /-- An instruction of no kind: it can be listed and counted, and fails when it is executed. -/
  | bare (location : Option Location)
  deriving Repr

namespace Node

/-- Where the node stands, if that is known. -/
def location : Node → Option Location
  | .op _ l => l
  | .loop l _ => some l
  | .bare l => l

/-- The instruction character of the node; a node of no kind has none. -/
def symbol : Node → String
  | .op o _ => o.symbol.toString
  | .loop _ _ => "["
  | .bare _ => ""

/-- The written form of a list of nodes, loops in brackets. -/
def written : List Node → List Char
  | [] => []
  | .op o _ :: rest => o.symbol :: written rest
  | .loop _ body :: rest => '[' :: written body ++ ']' :: written rest
  | .bare _ :: rest => written rest

/-- The number of nodes that are not loops, at any depth. -/
def count : List Node → Nat
  | [] => 0
  | .op _ _ :: rest => count rest + 1
  | .loop _ body :: rest => count body + count rest
  | .bare _ :: rest => count rest + 1

/-- How deeply loops are nested. -/
def depth : List Node → Nat
  | [] => 0
  | .op _ _ :: rest => depth rest
  | .loop _ body :: rest => max (depth body + 1) (depth rest)
  | .bare _ :: rest => depth rest

/-- The nodes in the order in which they are written, each with the number of loops around it. -/
def listing (level : Nat) : List Node → List (Nat × Node)
  | [] => []
  | .loop l body :: rest =>
    (level, .loop l body) :: (listing (level + 1) body ++ listing level rest)
  | n :: rest => (level, n) :: listing level rest

/-- The written form of one list after another. -/
theorem written_append (as bs : List Node) : written (as ++ bs) = written as ++ written bs := by
  fun_induction written as <;> simp_all [written]

theorem count_append (as bs : List Node) : count (as ++ bs) = count as + count bs := by
  fun_induction count as <;> simp_all [count] <;> omega

end Node

/-- A whole program: its statements and the end of its text. -/
structure Program where
  statements : List Node
  finish : Location

end TapeLang
