import TapeLang.Text.Hex

/-!
# Reading UTF-8

Bytes become characters one at a time. A leading byte says how many more bytes its character has and
between which bounds the first of them lies, so that no character has two encodings and surrogates
have none. Reading stops at the first byte that no character can go on with; the bytes of the
character up to there are the ones that are refused. Two bytes that could only begin a surrogate
are refused when it shows whether a third one follows them, and the first of them takes the blame.
-/

namespace TapeLang.Text.Utf8

/-- Why bytes are no text. -/
inductive Reason where
  | invalidStart
  | invalidContinuation
  | unexpectedEnd
  deriving DecidableEq, Repr

/-- The wording of a reason. -/
def Reason.message : Reason → String
  | .invalidStart => "invalid start byte"
  | .invalidContinuation => "invalid continuation byte"
  | .unexpectedEnd => "unexpected end of data"

/-- A refusal: where the refused bytes begin, how many they are, and the first of them. -/
structure DecodeError where
  start : Nat
  count : Nat
  first : UInt8
  reason : Reason
  deriving DecidableEq, Repr

/-- The wording of a refusal. -/
def DecodeError.message (e : DecodeError) : String :=
  let what :=
    if e.count = 1 then
      s!"byte 0x{String.ofList (hex 2 e.first.toNat)} in position {e.start}"
    else s!"bytes in position {e.start}-{e.start + e.count - 1}"
  s!"'utf-8' codec can't decode {what}: {e.reason.message}"

/-- A character of which some bytes have been read. -/
structure Partial where
  first : UInt8
  /-- How many bytes have been read. -/
  count : Nat
  /-- How many bytes are still to come; at least one. -/
  more : Nat
  /-- The bounds of the next byte. -/
  low : Nat
  high : Nat
  /-- The value of the bits read so far. -/
  value : Nat

/-- What has been read of something that is not yet a character. -/
inductive Pending where
  | part (p : Partial)
  /-- The first two bytes of a surrogate. -/
  | surrogate (first : UInt8)

/-- What a first byte begins: a whole character or a part of one. -/
inductive Start where
  | whole (c : Char)
  | part (p : Partial)
  | refused

/-- What a byte begins. -/
def start (b : UInt8) : Start :=
  let n := b.toNat
  let part (more low high value : Nat) : Start := .part ⟨b, 1, more, low, high, value⟩
  if n < 0x80 then .whole (Char.ofNat n)
  else if n < 0xC2 then .refused
  else if n < 0xE0 then part 1 0x80 0xBF (n - 0xC0)
  else if n = 0xE0 then part 2 0xA0 0xBF 0
  else if n = 0xED then part 2 0x80 0x9F 0xD
  else if n < 0xF0 then part 2 0x80 0xBF (n - 0xE0)
  else if n = 0xF0 then part 3 0x90 0xBF 0
  else if n < 0xF4 then part 3 0x80 0xBF (n - 0xF0)
  else if n = 0xF4 then part 3 0x80 0x8F 4
  else .refused

/-- The second byte `b` turns a character that begins with `p` into a surrogate. -/
def Partial.isSurrogate (p : Partial) (b : UInt8) : Bool :=
  p.first = 0xED && p.count = 1 && 0xA0 ≤ b && b ≤ 0xBF

/-- Reading in progress. -/
structure State where
  /-- The characters read so far. -/
  done : Array Char := #[]
  /-- The place of the next character, or of the one that is open, among the bytes. -/
  position : Nat := 0
  open? : Option Pending := none

/-- Read one more byte. -/
def State.step (s : State) (b : UInt8) : Except DecodeError State :=
  match s.open? with
  | none =>
    match start b with
    | .whole c => .ok { s with done := s.done.push c, position := s.position + 1 }
    | .part p => .ok { s with open? := some (.part p) }
    | .refused => .error ⟨s.position, 1, b, .invalidStart⟩
  | some (.surrogate first) => .error ⟨s.position, 1, first, .invalidContinuation⟩
  | some (.part p) =>
    if p.low ≤ b.toNat ∧ b.toNat ≤ p.high then
      let value := 0x40 * p.value + b.toNat % 0x40
      if p.more ≤ 1 then
        .ok ⟨s.done.push (Char.ofNat value), s.position + p.count + 1, none⟩
      else
        .ok { s with
          open? := some (.part ⟨p.first, p.count + 1, p.more - 1, 0x80, 0xBF, value⟩) }
    else if p.isSurrogate b then .ok { s with open? := some (.surrogate p.first) }
    else .error ⟨s.position, p.count, p.first, .invalidContinuation⟩

/-- Why reading cannot end here, if it cannot. -/
def State.unfinished? (s : State) : Option DecodeError :=
  match s.open? with
  | none => none
  | some (.part p) => some ⟨s.position, p.count, p.first, .unexpectedEnd⟩
  | some (.surrogate first) => some ⟨s.position, 1, first, .invalidContinuation⟩

/-- The characters of a sequence of bytes. -/
def decode (bytes : List UInt8) : Except DecodeError (List Char) :=
  match bytes.foldlM State.step {} with
  | .error e => .error e
  | .ok s =>
    match s.unfinished? with
    | none => .ok s.done.toList
    | some e => .error e

end TapeLang.Text.Utf8
