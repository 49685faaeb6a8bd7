import TapeLang.Text.Hex

/-!
# JSON documents

Documents of nulls, integers, texts, lists and records, written on several lines with two blanks for
each level. A written document is pure ASCII: inside a text every other character is an escape, and
one beyond the basic plane is a pair of surrogate escapes.
-/

namespace TapeLang

/-- A JSON document without fractions and truth values. -/
inductive Json where
  | null
  | number (n : Int)
  | text (s : String)
  | list (items : List Json)
  | record (fields : List (String × Json))

namespace Json

/-- The escape of one UTF-16 unit. -/
def escapeUnit (n : Nat) : List Char := '\\' :: 'u' :: Text.hex 4 n

/-- A character as it is written inside a text. -/
def escape (c : Char) : List Char :=
  if c = '"' then ['\\', '"']
  else if c = '\\' then ['\\', '\\']
  else if c = '\n' then ['\\', 'n']
  else if c = '\r' then ['\\', 'r']
  else if c = '\t' then ['\\', 't']
  else if c = '\x08' then ['\\', 'b']
  else if c = '\x0c' then ['\\', 'f']
  else if ' ' ≤ c ∧ c ≤ '~' then [c]
  else if c.toNat < 0x10000 then escapeUnit c.toNat
  else
    let offset := c.toNat - 0x10000
    escapeUnit (0xD800 + offset / 0x400) ++ escapeUnit (0xDC00 + offset % 0x400)

/-- A text between quotation marks. -/
def quoted (s : String) : List Char := '"' :: (s.toList.flatMap escape ++ ['"'])

/-- The start of a new line at a level. -/
def newline (level : Nat) : List Char := '\n' :: List.replicate (2 * level) ' '

/-- Written parts between brackets, each part on a line of its own; no parts take no lines. -/
def block (level : Nat) (opening closing : Char) (parts : List (List Char)) : List Char :=
  if parts.isEmpty then [opening, closing]
  else
    opening :: newline (level + 1) ++ (',' :: newline (level + 1)).intercalate parts
      ++ newline level ++ [closing]

mutual

/-- A document written at a level. -/
def chars (level : Nat) : Json → List Char
  | .null => ['n', 'u', 'l', 'l']
  | .number n => (toString n).toList
  | .text s => quoted s
  | .list xs => block level '[' ']' (items (level + 1) xs)
  | .record fs => block level '\x7b' '\x7d' (fields (level + 1) fs)

/-- The written items of a list. -/
def items (level : Nat) : List Json → List (List Char)
  | [] => []
  | x :: xs => chars level x :: items level xs

/-- The written fields of a record. -/
def fields (level : Nat) : List (String × Json) → List (List Char)
  | [] => []
  | (k, x) :: rest => (quoted k ++ ':' :: ' ' :: chars level x) :: fields level rest

end

/-- The written form of a document. -/
def render (j : Json) : String := String.ofList (chars 0 j)

end Json

end TapeLang
