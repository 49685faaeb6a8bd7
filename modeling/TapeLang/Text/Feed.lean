import TapeLang.Text.Lines
import TapeLang.Text.Utf8

/-!
# Lines from a stream

A stream of bytes is fetched in blocks of a fixed size, and only when no whole line is left of the
blocks before. A block becomes text as a whole or not at all, so a byte that no character can go on
with hides every line that ends in its block, and its place is counted from the start of the block,
or from the start of the character that the block before has left open. Cutting loses nothing
(`flatten_blocks`).
-/

namespace TapeLang.Text

/-- How many bytes are fetched at once. -/
def blockSize : Nat := 8192

/-- The blocks of a stream; only the last one may be shorter than the others. -/
def blocks (bytes : List UInt8) : List (List UInt8) :=
  if bytes.isEmpty then []
  else bytes.take blockSize :: blocks (bytes.drop blockSize)
termination_by bytes.length
decreasing_by
  have h : 0 < bytes.length := by cases bytes <;> simp_all
  simp only [List.length_drop, blockSize]
  omega

/-- The blocks of a stream hold its bytes in order. -/
theorem flatten_blocks (bytes : List UInt8) : (blocks bytes).flatten = bytes := by
  fun_induction blocks bytes with
  | case1 bytes h => simpa using (List.isEmpty_iff.mp h).symm
  | case2 bytes _ ih => rw [List.flatten_cons, ih, List.take_append_drop]

/-- Turn blocks into text. The state counts places from the start of the block; the result holds
the text of all blocks before the one that is refused. -/
def readBlocks (s : Utf8.State) : List (List UInt8) → List Char × Option Utf8.DecodeError
  | [] => (s.done.toList, { s with position := 0 }.unfinished?)
  | block :: rest =>
    match block.foldlM Utf8.State.step { s with position := 0 } with
    | .ok s => readBlocks s rest
    | .error e => (s.done.toList, some e)

/-- What can be read from a stream: whole lines, one after the other, and then its end or a
refusal. -/
structure Feed where
  lines : List String
  refusal : Option Utf8.DecodeError := none
  deriving DecidableEq, Repr

/-- The lines of a text that ends here; a last line without a newline counts, an empty one does
not. -/
def closedLines (cs : List Char) : List (List Char) :=
  let all := lines (plainNewlines cs)
  if all.getLast? = some [] then all.dropLast else all

/-- The lines of a text that would go on. The last one is not whole, and neither is one that ends in
a carriage return, which a newline may follow. -/
def openLines (cs : List Char) : List (List Char) :=
  (lines (plainNewlines (if cs.getLast? = some '\r' then cs.dropLast else cs))).dropLast

/-- The lines of a stream. -/
def Feed.ofBytes (bytes : List UInt8) : Feed :=
  match readBlocks {} (blocks bytes) with
  | (cs, none) => ⟨(closedLines cs).map String.ofList, none⟩
  | (cs, some e) => ⟨(openLines cs).map String.ofList, some e⟩

end TapeLang.Text
