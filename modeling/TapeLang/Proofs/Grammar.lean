import Mathlib.Algebra.Group.Nat.Defs
import TapeLang.Json

/-!
# The grammar of JSON texts

What counts as a written form of a document is settled by the grammar of JSON alone: blank space
may stand between any two parts, a character of a text may stand for itself or be escaped in several
ways, and one beyond the basic plane may be a pair of surrogate escapes. The written form that
`Json.render` chooses is one of these, and it is pure ASCII.
-/

namespace TapeLang

namespace Text

/-- The value of a hexadecimal digit in either case. -/
def hexValue? (c : Char) : Option Nat :=
  if '0' ≤ c ∧ c ≤ '9' then some (c.toNat - '0'.toNat)
  else if 'a' ≤ c ∧ c ≤ 'f' then some (c.toNat - 'a'.toNat + 10)
  else if 'A' ≤ c ∧ c ≤ 'F' then some (c.toNat - 'A'.toNat + 10)
  else none

/-- The number that hexadecimal digits write, the most significant first. -/
def hexNumber? (cs : List Char) : Option Nat :=
  cs.foldlM (fun n c => (hexValue? c).map (16 * n + ·)) 0

theorem hexValue?_hexDigit {n : Nat} (h : n < 16) : hexValue? (hexDigit n) = some n := by
  have key : ∀ k : Fin 16, hexValue? (hexDigit k.val) = some k.val := by decide
  exact key ⟨n, h⟩

/-- Hexadecimal digits are read back, as many of them as are written. -/
theorem hexNumber?_hex (places n : Nat) : hexNumber? (hex places n) = some (n % 16 ^ places) := by
  induction places generalizing n with
  | zero => simp [hexNumber?, hex, Nat.mod_one]
  | succ places ih =>
    have hlast : n % 16 < 16 := Nat.mod_lt n (by decide)
    have hrest := ih (n / 16)
    rw [hexNumber?] at hrest ⊢
    rw [hex, List.foldlM_append, hrest]
    simp only [Option.bind_eq_bind, Option.bind_some, List.foldlM_cons, List.foldlM_nil,
      hexValue?_hexDigit hlast, Option.map_some, Option.pure_def, Option.some.injEq]
    rw [Nat.pow_succ', Nat.mod_mul, Nat.add_comm]

end Text

namespace Json

/-! ## Parts of a written form -/

/-- Blank space between the parts of a written form. -/
def isSpace (c : Char) : Bool := c = ' ' || c = '\n' || c = '\r' || c = '\t'

/-- Any amount of blank space is passed over. -/
inductive Spaces : List Char → List Char → Prop where
  | none {cs : List Char} : Spaces cs cs
  | more {c : Char} {cs rest : List Char} (space : isSpace c = true) (later : Spaces cs rest) :
      Spaces (c :: cs) rest

/-- The letters that stand for a character behind a backslash. -/
def shortEscapes : List (Char × Char) :=
  [('"', '"'), ('\\', '\\'), ('/', '/'), ('b', '\x08'), ('f', '\x0c'), ('n', '\n'), ('r', '\r'),
    ('t', '\t')]

/-- One character of a text, as it is or escaped, and what follows it. -/
inductive Letter : List Char → Char → List Char → Prop where
  | plain {c : Char} {rest : List Char} (printing : ' ' ≤ c) (quote : c ≠ '"')
      (backslash : c ≠ '\\') : Letter (c :: rest) c rest
  | short {e c : Char} {rest : List Char} (known : shortEscapes.lookup e = some c) :
      Letter ('\\' :: e :: rest) c rest
  | unit {digits rest : List Char} {n : Nat} (four : digits.length = 4)
      (number : Text.hexNumber? digits = some n) (scalar : n < 0xD800 ∨ 0xE000 ≤ n) :
      Letter ('\\' :: 'u' :: (digits ++ rest)) (Char.ofNat n) rest
  | pair {digits digits' rest : List Char} {m n : Nat} (four : digits.length = 4)
      (high : Text.hexNumber? digits = some (0xD800 + m)) (highest : m < 0x400)
      (four' : digits'.length = 4) (low : Text.hexNumber? digits' = some (0xDC00 + n))
      (lowest : n < 0x400) :
      Letter ('\\' :: 'u' :: (digits ++ '\\' :: 'u' :: (digits' ++ rest)))
        (Char.ofNat (0x10000 + m * 0x400 + n)) rest

/-- The characters of a text up to its closing quotation mark, and what follows that mark. -/
inductive Letters : List Char → List Char → List Char → Prop where
  | nil {rest : List Char} : Letters ('"' :: rest) [] rest
  | cons {cs cs' rest s : List Char} {c : Char} (letter : Letter cs c cs')
      (later : Letters cs' s rest) : Letters cs (c :: s) rest

/-- A number without a sign has at least one digit, and no zero in front of another digit. -/
def Numeral (digits : List Char) : Prop :=
  digits ≠ [] ∧ digits.all Char.isDigit = true ∧ (digits.head? = some '0' → digits = ['0'])

instance (digits : List Char) : Decidable (Numeral digits) :=
  inferInstanceAs (Decidable (_ ∧ _ ∧ _))

/-- No digit comes next. -/
def NoDigit (rest : List Char) : Prop := ∀ c ∈ rest.head?, c.isDigit = false

/-- An integer, all of its digits, and what follows them. -/
inductive Integer : List Char → Int → List Char → Prop where
  | natural {digits rest : List Char} (numeral : Numeral digits) (ended : NoDigit rest) :
      Integer (digits ++ rest) (Nat.ofDigitChars 10 digits 0) rest
  | negative {digits rest : List Char} (numeral : Numeral digits) (ended : NoDigit rest) :
      Integer ('-' :: (digits ++ rest)) (-(Nat.ofDigitChars 10 digits 0 : Int)) rest

/-- What a part of a written form writes. -/
inductive Phrase where
  | value (j : Json)
  /-- The items of a list, up to and with the bracket that closes it. -/
  | items (xs : List Json)
  /-- The fields of a record, up to and with the bracket that closes it. -/
  | fields (fs : List (String × Json))

/-- A phrase is written in front, and the rest follows it. -/
inductive Reads : List Char → Phrase → List Char → Prop where
  | null {rest : List Char} : Reads ('n' :: 'u' :: 'l' :: 'l' :: rest) (.value .null) rest
  | number {cs rest : List Char} {n : Int} (integer : Integer cs n rest) :
      Reads cs (.value (.number n)) rest
  | text {cs rest s : List Char} (letters : Letters cs s rest) :
      Reads ('"' :: cs) (.value (.text (String.ofList s))) rest
  | emptyList {cs rest : List Char} (gap : Spaces cs (']' :: rest)) :
      Reads ('[' :: cs) (.value (.list [])) rest
  | list {cs cs' rest : List Char} {xs : List Json} (gap : Spaces cs cs')
      (inside : Reads cs' (.items xs) rest) : Reads ('[' :: cs) (.value (.list xs)) rest
  | emptyRecord {cs rest : List Char} (gap : Spaces cs ('\x7d' :: rest)) :
      Reads ('\x7b' :: cs) (.value (.record [])) rest
  | record {cs cs' rest : List Char} {fs : List (String × Json)} (gap : Spaces cs cs')
      (inside : Reads cs' (.fields fs) rest) : Reads ('\x7b' :: cs) (.value (.record fs)) rest
  | lastItem {cs cs' rest : List Char} {x : Json} (item : Reads cs (.value x) cs')
      (toClosing : Spaces cs' (']' :: rest)) : Reads cs (.items [x]) rest
  | item {cs cs₁ cs₂ cs₃ rest : List Char} {x : Json} {xs : List Json}
      (item : Reads cs (.value x) cs₁) (toComma : Spaces cs₁ (',' :: cs₂))
      (toNext : Spaces cs₂ cs₃) (later : Reads cs₃ (.items xs) rest) :
      Reads cs (.items (x :: xs)) rest
  | lastField {cs cs₁ cs₂ cs₃ cs₄ rest k : List Char} {x : Json} (key : Letters cs k cs₁)
      (toColon : Spaces cs₁ (':' :: cs₂)) (toValue : Spaces cs₂ cs₃)
      (value : Reads cs₃ (.value x) cs₄) (toClosing : Spaces cs₄ ('\x7d' :: rest)) :
      Reads ('"' :: cs) (.fields [(String.ofList k, x)]) rest
  | field {cs cs₁ cs₂ cs₃ cs₄ cs₅ cs₆ rest k : List Char} {x : Json}
      {fs : List (String × Json)} (key : Letters cs k cs₁) (toColon : Spaces cs₁ (':' :: cs₂))
      (toValue : Spaces cs₂ cs₃) (value : Reads cs₃ (.value x) cs₄)
      (toComma : Spaces cs₄ (',' :: cs₅)) (toNext : Spaces cs₅ cs₆)
      (later : Reads cs₆ (.fields fs) rest) :
      Reads ('"' :: cs) (.fields ((String.ofList k, x) :: fs)) rest

/-- A text is a JSON text that writes this document: one value with nothing but blank space around
it. -/
def Denotes (cs : List Char) (j : Json) : Prop :=
  ∃ cs' rest, Spaces cs cs' ∧ Reads cs' (.value j) rest ∧ Spaces rest []

/-! ## The chosen form -/

/-- A character is written behind a backslash, as it is, as one escape, or as two. -/
theorem escape_cases (c : Char) :
    (∃ e, escape c = ['\\', e] ∧ e.toNat < 0x80 ∧ shortEscapes.lookup e = some c) ∨
      (escape c = [c] ∧ ' ' ≤ c ∧ c ≤ '~' ∧ c ≠ '"' ∧ c ≠ '\\') ∨
      (escape c = escapeUnit c.toNat ∧ c.toNat < 0x10000) ∨
      ∃ offset < 0x100000, c.toNat = 0x10000 + offset ∧
        escape c = escapeUnit (0xD800 + offset / 0x400) ++
          escapeUnit (0xDC00 + offset % 0x400) := by
  have hvalid : c.toNat < 0xD800 ∨ 0xDFFF < c.toNat ∧ c.toNat < 0x110000 := c.valid
  fun_cases escape c with
  | case8 hquote hbackslash _ _ _ _ _ hprinting =>
    exact .inr (.inl ⟨rfl, hprinting.1, hprinting.2, hquote, hbackslash⟩)
  | case9 _ _ _ _ _ _ _ _ hbasic => exact .inr (.inr (.inl ⟨rfl, hbasic⟩))
  | case10 => exact .inr (.inr (.inr ⟨c.toNat - 0x10000, by omega, by omega, rfl⟩))
  | _ =>
    subst_vars
    exact .inl ⟨_, rfl, by decide, rfl⟩

theorem hexNumber?_unit {n : Nat} (h : n < 0x10000) :
    Text.hexNumber? (Text.hex 4 n) = some n := by
  have hplaces : n < 16 ^ 4 := h
  rw [Text.hexNumber?_hex, Nat.mod_eq_of_lt hplaces]

/-- The way in which a character is written is one of those that the grammar allows. -/
theorem letter_escape (c : Char) (rest : List Char) : Letter (escape c ++ rest) c rest := by
  rcases escape_cases c with ⟨e, he, -, hknown⟩ | ⟨he, hprinting, -, hquote, hbackslash⟩ |
    ⟨he, hbasic⟩ | ⟨offset, hoffset, hc, he⟩
  · rw [he]
    exact .short hknown
  · rw [he]
    exact .plain hprinting hquote hbackslash
  · have hscalar : c.toNat < 0xD800 ∨ 0xE000 ≤ c.toNat := c.valid.imp id fun h => h.1
    have hletter : Letter (escapeUnit c.toNat ++ rest) (Char.ofNat c.toNat) rest :=
      .unit (Text.length_hex 4 _) (hexNumber?_unit hbasic) hscalar
    rw [Char.ofNat_toNat] at hletter
    rw [he]
    exact hletter
  · have hhigh : offset / 0x400 < 0x400 := by omega
    have hlow : offset % 0x400 < 0x400 := Nat.mod_lt _ (by decide)
    have hletter := @Letter.pair _ _ rest _ _ (Text.length_hex 4 _)
      (hexNumber?_unit (show 0xD800 + offset / 0x400 < 0x10000 by omega)) hhigh
      (Text.length_hex 4 _) (hexNumber?_unit (show 0xDC00 + offset % 0x400 < 0x10000 by omega)) hlow
    have hwhole : 0x10000 + offset / 0x400 * 0x400 + offset % 0x400 = c.toNat := by omega
    rw [hwhole, Char.ofNat_toNat] at hletter
    simpa only [he, escapeUnit, List.append_assoc, List.cons_append] using hletter

theorem letters_flatMap_escape (s rest : List Char) :
    Letters (s.flatMap escape ++ '"' :: rest) s rest := by
  induction s with
  | nil => exact .nil
  | cons c s ih =>
    rw [List.flatMap_cons, List.append_assoc]
    exact .cons (letter_escape c _) ih

/-- A text between its quotation marks is read up to the second of them. -/
theorem quoted_append (s : String) (rest : List Char) :
    quoted s ++ rest = '"' :: (s.toList.flatMap escape ++ '"' :: rest) := by
  simp [quoted]

/-- No number is written with a zero in front of another digit. -/
theorem toDigits_eq_of_head? {n : Nat} (h : (Nat.toDigits 10 n).head? = some '0') :
    Nat.toDigits 10 n = ['0'] := by
  induction n using Nat.strongRecOn with
  | ind n ih =>
    rw [Nat.toDigits_eq_if (by decide)] at h ⊢
    split at h
    · next hn =>
      rw [if_pos hn]
      exact congrArg (fun c => [c]) (Option.some.inj h)
    · next hn =>
      rw [List.head?_append, Option.or_of_isSome (by simp [Nat.toDigits_ne_nil])] at h
      have hrest := ih (n / 10) (by omega) h
      have hzero : n / 10 = 0 := by
        rw [← Nat.ofDigitChars_ten_toDigits (n := n / 10), hrest]
        rfl
      omega

theorem numeral_toDigits (n : Nat) : Numeral (Nat.toDigits 10 n) :=
  ⟨Nat.toDigits_ne_nil,
    List.all_eq_true.2 fun _ => Nat.isDigit_of_mem_toDigits (by decide) (by decide),
    toDigits_eq_of_head?⟩

theorem toList_ofNat (n : Nat) : (toString (Int.ofNat n)).toList = Nat.toDigits 10 n := by
  show (Nat.repr n).toList = _
  rw [Nat.repr_eq_ofList_toDigits, String.toList_ofList]

theorem toList_negSucc (n : Nat) :
    (toString (Int.negSucc n)).toList = '-' :: Nat.toDigits 10 (n + 1) := by
  show ("-" ++ Nat.repr (n + 1)).toList = _
  rw [Nat.repr_eq_ofList_toDigits, String.toList_append, String.toList_ofList,
    String.toList_ofList]
  rfl

/-- An integer is read back when all of its digits have been read. -/
theorem integer_toString (n : Int) {rest : List Char} (ended : NoDigit rest) :
    Integer ((toString n).toList ++ rest) n rest := by
  cases n with
  | ofNat n =>
    have hread := Integer.natural (numeral_toDigits n) ended
    rw [Nat.ofDigitChars_ten_toDigits] at hread
    rwa [toList_ofNat]
  | negSucc n =>
    have hread := Integer.negative (numeral_toDigits (n + 1)) ended
    rw [Nat.ofDigitChars_ten_toDigits] at hread
    rw [toList_negSucc]
    exact hread

theorem noDigit_cons {c : Char} (h : c.isDigit = false) (rest : List Char) :
    NoDigit (c :: rest) := by
  rintro _ ⟨⟩
  exact h

theorem spaces_newline (level : Nat) (rest : List Char) : Spaces (newline level ++ rest) rest := by
  have hblanks : ∀ k, Spaces (List.replicate k ' ' ++ rest) rest := by
    intro k
    induction k with
    | zero => exact .none
    | succ k ih => exact .more rfl ih
  exact .more rfl (hblanks _)

/-- What holds of the leaves, and of a list or a record when it holds of all that is in it, holds of
every document. -/
theorem induction {P : Json → Prop} (null : P .null) (number : ∀ n, P (.number n))
    (text : ∀ s, P (.text s)) (list : ∀ xs, (∀ x ∈ xs, P x) → P (.list xs))
    (record : ∀ fs, (∀ f ∈ fs, P f.2) → P (.record fs)) (j : Json) : P j :=
  match j with
  | .null => null
  | .number n => number n
  | .text s => text s
  | .list xs => list xs fun x _ => induction null number text list record x
  | .record fs => record fs fun f _ => induction null number text list record f.2
termination_by sizeOf j
decreasing_by
  · next h =>
    have := List.sizeOf_lt_of_mem h
    simp
    omega
  · next h =>
    have := List.sizeOf_lt_of_mem h
    have : sizeOf f.2 < sizeOf f := by
      obtain ⟨k, x⟩ := f
      simp only [Prod.mk.sizeOf_spec]
      omega
    simp
    omega

theorem items_eq_map (level : Nat) (xs : List Json) : items level xs = xs.map (chars level) := by
  induction xs with
  | nil => rfl
  | cons x xs ih => rw [items, ih, List.map_cons]

theorem fields_eq_map (level : Nat) (fs : List (String × Json)) :
    fields level fs = fs.map fun f => quoted f.1 ++ ':' :: ' ' :: chars level f.2 := by
  induction fs with
  | nil => rfl
  | cons f fs ih => rw [fields, ih, List.map_cons]

/-- Items on lines of their own are read one after the other. -/
theorem reads_items (level : Nat) {xs : List Json} (hne : xs ≠ [])
    (each : ∀ x ∈ xs, ∀ rest, NoDigit rest → Reads (chars level x ++ rest) (.value x) rest)
    {cs rest : List Char} (gap : Spaces cs (']' :: rest)) (ended : NoDigit cs) :
    Reads ((',' :: newline level).intercalate (xs.map (chars level)) ++ cs) (.items xs) rest := by
  induction xs with
  | nil => exact absurd rfl hne
  | cons x xs ih =>
    have hx := each x List.mem_cons_self
    cases xs with
    | nil =>
      rw [List.map_singleton, List.intercalate_singleton]
      exact .lastItem (hx _ ended) gap
    | cons y ys =>
      have hlater := ih (List.cons_ne_nil y ys) fun z hz => each z (List.mem_cons_of_mem x hz)
      have hread := Reads.item (hx _ (noDigit_cons rfl _)) .none (spaces_newline level _) hlater
      simpa only [List.map_cons, List.intercalate_cons_cons, List.append_assoc, List.cons_append]
        using hread

/-- Fields on lines of their own are read one after the other. -/
theorem reads_fields (level : Nat) {fs : List (String × Json)} (hne : fs ≠ [])
    (each : ∀ f ∈ fs, ∀ rest, NoDigit rest → Reads (chars level f.2 ++ rest) (.value f.2) rest)
    {cs rest : List Char} (gap : Spaces cs ('\x7d' :: rest)) (ended : NoDigit cs) :
    Reads ((',' :: newline level).intercalate
      (fs.map fun f => quoted f.1 ++ ':' :: ' ' :: chars level f.2) ++ cs) (.fields fs) rest := by
  induction fs with
  | nil => exact absurd rfl hne
  | cons f fs ih =>
    have hf := each f List.mem_cons_self
    have hkey (rest : List Char) := letters_flatMap_escape f.1.toList rest
    have hgap (rest : List Char) : Spaces (' ' :: rest) rest := .more rfl .none
    cases fs with
    | nil =>
      have hread := Reads.lastField (hkey _) .none (hgap _) (hf _ ended) gap
      simpa only [List.map_singleton, List.intercalate_singleton, String.ofList_toList,
        List.append_assoc, quoted_append, List.cons_append] using hread
    | cons g gs =>
      have hlater := ih (List.cons_ne_nil g gs) fun z hz => each z (List.mem_cons_of_mem f hz)
      have hread := Reads.field (hkey _) .none (hgap _) (hf _ (noDigit_cons rfl _)) .none
        (spaces_newline level _) hlater
      simpa only [List.map_cons, List.intercalate_cons_cons, String.ofList_toList,
        List.append_assoc, quoted_append, List.cons_append] using hread

/-- A document is written as the grammar has it. -/
theorem reads_chars (j : Json) (level : Nat) {rest : List Char} (ended : NoDigit rest) :
    Reads (chars level j ++ rest) (.value j) rest := by
  induction j using induction generalizing level rest with
  | null => exact .null
  | number n => exact .number (integer_toString n ended)
  | text s =>
    have hread : Reads _ (.value (.text (String.ofList s.toList))) rest :=
      .text (letters_flatMap_escape s.toList rest)
    rwa [String.ofList_toList, ← quoted_append] at hread
  | list xs ih =>
    rw [chars, items_eq_map]
    cases xs with
    | nil => exact .emptyList .none
    | cons x xs =>
      have hread := Reads.list (spaces_newline (level + 1) _)
        (reads_items (level + 1) (List.cons_ne_nil x xs) (fun y hy rest ended => ih y hy _ ended)
          (spaces_newline level (']' :: rest)) (noDigit_cons rfl _))
      simpa only [block, List.map_cons, List.isEmpty_cons, Bool.false_eq_true, if_false,
        List.append_assoc, List.cons_append, List.nil_append] using hread
  | record fs ih =>
    rw [chars, fields_eq_map]
    cases fs with
    | nil => exact .emptyRecord .none
    | cons f fs =>
      have hread := Reads.record (spaces_newline (level + 1) _)
        (reads_fields (level + 1) (List.cons_ne_nil f fs) (fun g hg rest ended => ih g hg _ ended)
          (spaces_newline level ('\x7d' :: rest)) (noDigit_cons rfl _))
      simpa only [block, List.map_cons, List.isEmpty_cons, Bool.false_eq_true, if_false,
        List.append_assoc, List.cons_append, List.nil_append] using hread

/-- The written form of a document is a JSON text that writes it. -/
theorem denotes_render (j : Json) : Denotes (render j).toList j := by
  have hread : Reads (chars 0 j ++ []) (.value j) [] := reads_chars j 0 (by rintro _ ⟨⟩)
  rw [List.append_nil] at hread
  rw [render, String.toList_ofList]
  exact ⟨_, _, .none, hread, .none⟩

/-! ## ASCII -/

end Json

end TapeLang
