import TapeLang.Proofs.Grammar

/-!
# Reading JSON texts

A decoder goes over a JSON text from left to right. It reads every text that the grammar allows,
whatever its blank space and its escapes, as the document that it writes. So a text writes one
document at most, and reading what a document is rendered as gives the document back.
-/

namespace TapeLang.Json

/-! ## The decoder -/

/-- Pass over all blank space in front. -/
def skip (cs : List Char) : List Char := cs.dropWhile isSpace

/-- Four hexadecimal digits. -/
def unit? (cs : List Char) : Option (Nat × List Char) :=
  if (cs.take 4).length = 4 then (Text.hexNumber? (cs.take 4)).map fun n => (n, cs.drop 4) else none

/-- One character of a text. A high surrogate takes the low one behind it along; no surrogate stands
alone. -/
def letter? : List Char → Option (Char × List Char)
  | '\\' :: 'u' :: cs => do
    let (m, rest) ← unit? cs
    if m < 0xD800 ∨ 0xE000 ≤ m then return (Char.ofNat m, rest)
    match rest with
    | '\\' :: 'u' :: cs =>
      let (n, rest) ← unit? cs
      if m < 0xDC00 ∧ 0xDC00 ≤ n ∧ n < 0xE000 then
        return (Char.ofNat (0x10000 + (m - 0xD800) * 0x400 + (n - 0xDC00)), rest)
      none
    | _ => none
  | '\\' :: e :: rest => (shortEscapes.lookup e).map fun c => (c, rest)
  | c :: rest => if ' ' ≤ c ∧ c ≠ '"' ∧ c ≠ '\\' then some (c, rest) else none
  | [] => none

/-- The characters of a text up to its closing quotation mark. -/
def letters? : Nat → List Char → Option (List Char × List Char)
  | 0, _ => none
  | _ + 1, '"' :: rest => some ([], rest)
  | fuel + 1, cs => do
    let (c, rest) ← letter? cs
    let (s, rest) ← letters? fuel rest
    return (c :: s, rest)

/-- A number without a sign. -/
def natural? (cs : List Char) : Option (Nat × List Char) :=
  let digits := cs.takeWhile Char.isDigit
  if Numeral digits then some (Nat.ofDigitChars 10 digits 0, cs.dropWhile Char.isDigit) else none

/-- An integer. -/
def integer? : List Char → Option (Int × List Char)
  | '-' :: cs => (natural? cs).map fun (n, rest) => (-(n : Int), rest)
  | cs => (natural? cs).map fun (n, rest) => ((n : Int), rest)

mutual

/-- A document. Every part of it takes two units of fuel for each of its characters at most. -/
def value? : Nat → List Char → Option (Json × List Char)
  | 0, _ => none
  | _ + 1, 'n' :: 'u' :: 'l' :: 'l' :: rest => some (.null, rest)
  | fuel + 1, '"' :: cs => (letters? fuel cs).map fun (s, rest) => (.text (String.ofList s), rest)
  | fuel + 1, '[' :: cs =>
    match skip cs with
    | ']' :: rest => some (.list [], rest)
    | cs => (items? fuel cs).map fun (xs, rest) => (.list xs, rest)
  | fuel + 1, '\x7b' :: cs =>
    match skip cs with
    | '\x7d' :: rest => some (.record [], rest)
    | cs => (fields? fuel cs).map fun (fs, rest) => (.record fs, rest)
  | _ + 1, cs => (integer? cs).map fun (n, rest) => (.number n, rest)

/-- The items of a list, up to and with the bracket that closes it. -/
def items? : Nat → List Char → Option (List Json × List Char)
  | 0, _ => none
  | fuel + 1, cs => do
    let (x, rest) ← value? fuel cs
    match skip rest with
    | ']' :: rest => return ([x], rest)
    | ',' :: cs =>
      let (xs, rest) ← items? fuel (skip cs)
      return (x :: xs, rest)
    | _ => none

/-- The fields of a record, up to and with the bracket that closes it. -/
def fields? : Nat → List Char → Option (List (String × Json) × List Char)
  | 0, _ => none
  | fuel + 1, '"' :: cs => do
    let (k, rest) ← letters? fuel cs
    match skip rest with
    | ':' :: cs =>
      let (x, rest) ← value? fuel (skip cs)
      match skip rest with
      | '\x7d' :: rest => return ([(String.ofList k, x)], rest)
      | ',' :: cs =>
        let (fs, rest) ← fields? fuel (skip cs)
        return ((String.ofList k, x) :: fs, rest)
      | _ => none
    | _ => none
  | _ + 1, _ => none

end

/-- The document that a text writes, if it is a JSON text without fractions and truth values. -/
def decode (text : String) : Option Json := do
  let (j, rest) ← value? (2 * text.toList.length + 1) (skip text.toList)
  if skip rest = [] then some j else none

/-! ## It reads what the grammar allows -/

variable {cs cs' rest s : List Char}

/-- The next character, if there is one, is not blank. -/
def NoSpace (cs : List Char) : Prop := ∀ c ∈ cs.head?, isSpace c = false

theorem noSpace_cons {c : Char} (h : isSpace c = false) (cs : List Char) : NoSpace (c :: cs) := by
  rintro _ ⟨⟩
  exact h

theorem skip_of_noSpace (h : NoSpace cs) : skip cs = cs := by
  cases cs with
  | nil => rfl
  | cons c cs => rw [skip, List.dropWhile_cons_of_neg (by simp [h c rfl])]

/-- All the blank space that there is is passed over. -/
theorem Spaces.skip_eq (gap : Spaces cs cs') (ended : NoSpace cs') : skip cs = cs' := by
  induction gap with
  | none => exact skip_of_noSpace ended
  | more space _ ih => rw [skip, List.dropWhile_cons_of_pos space, ← skip, ih ended]

@[grind →]
theorem Spaces.length_le (gap : Spaces cs cs') : cs'.length ≤ cs.length := by
  induction gap with
  | none => exact Nat.le_refl _
  | more _ _ ih => exact Nat.le_succ_of_le ih

theorem unit?_append {digits : List Char} {n : Nat} (four : digits.length = 4)
    (number : Text.hexNumber? digits = some n) (rest : List Char) :
    unit? (digits ++ rest) = some (n, rest) := by
  rw [unit?, ← four, List.take_left, List.drop_left, if_pos rfl, number]
  rfl

theorem Letter.length_lt {c : Char} (h : Letter cs c rest) : rest.length < cs.length := by
  cases h <;> simp <;> omega

/-- A character of a text is read in whatever way it is written. -/
theorem letter?_of_letter {c : Char} (h : Letter cs c rest) : letter? cs = some (c, rest) := by
  cases h with
  | plain printing quote backslash =>
    rw [letter?, if_pos ⟨printing, quote, backslash⟩]
    · exact fun _ h => absurd h backslash
    · exact fun _ _ h => absurd h backslash
  | short known =>
    rw [letter?, known]
    · rfl
    · rintro rfl
      cases known
  | unit four number scalar =>
    simp only [letter?, unit?_append four number, Option.bind_eq_bind, Option.bind_some,
      if_pos scalar]
    rfl
  | @pair digits digits' rest m n four high highest four' low lowest =>
    have hhigh : ¬(0xD800 + m < 0xD800 ∨ 0xE000 ≤ 0xD800 + m) := by omega
    have hlow : 0xD800 + m < 0xDC00 ∧ 0xDC00 ≤ 0xDC00 + n ∧ 0xDC00 + n < 0xE000 := by omega
    simp only [letter?, unit?_append four high, Option.bind_eq_bind, Option.bind_some,
      if_neg hhigh, unit?_append four' low, if_pos hlow, Nat.add_sub_cancel_left]
    rfl

@[grind →]
theorem Letters.length_lt (h : Letters cs s rest) : rest.length < cs.length := by
  induction h with
  | nil => exact Nat.lt_succ_self _
  | cons letter _ ih => exact Nat.lt_trans ih letter.length_lt

/-- A text is read when there is a unit of fuel for each of its characters. -/
theorem letters?_of_letters (h : Letters cs s rest) {fuel : Nat} (enough : cs.length ≤ fuel) :
    letters? fuel cs = some (s, rest) := by
  induction h generalizing fuel with
  | nil =>
    cases fuel with
    | zero => cases enough
    | succ fuel => rw [letters?]
  | @cons cs cs' rest s c letter later ih =>
    have hshorter := letter.length_lt
    cases fuel with
    | zero => omega
    | succ fuel =>
      rw [letters?, letter?_of_letter letter]
      · have hlater : letters? fuel cs' = some (s, rest) := ih (by omega)
        simp only [Option.bind_eq_bind, Option.bind_some, hlater]
        rfl
      · rintro rest rfl
        cases letter with
        | plain _ quote => exact quote rfl

theorem natural?_append {digits : List Char} (numeral : Numeral digits) (ended : NoDigit rest) :
    natural? (digits ++ rest) = some (Nat.ofDigitChars 10 digits 0, rest) := by
  have hrest : rest.takeWhile Char.isDigit = [] ∧ rest.dropWhile Char.isDigit = rest := by
    cases rest with
    | nil => exact ⟨rfl, rfl⟩
    | cons c rest =>
      have hc : ¬c.isDigit = true := by simp [ended c rfl]
      exact ⟨List.takeWhile_cons_of_neg hc, List.dropWhile_cons_of_neg hc⟩
  have hall := List.all_eq_true.1 numeral.2.1
  rw [natural?, List.takeWhile_append_of_pos hall, List.dropWhile_append_of_pos hall, hrest.1,
    hrest.2, List.append_nil]
  exact if_pos numeral

/-- The characters with which a number begins. -/
def Leads (c : Char) : Prop := c.isDigit = true ∨ c = '-'

theorem Leads.ne {c d : Char} (h : Leads c) (digit : d.isDigit = false) (sign : d ≠ '-') :
    c ≠ d := by
  rintro rfl
  rcases h with h | h
  · simp [digit] at h
  · exact sign h

theorem Leads.not_space {c : Char} (h : Leads c) : isSpace c = false := by
  have hne (d : Char) (digit : d.isDigit = false) (sign : d ≠ '-') : decide (c = d) = false :=
    decide_eq_false (h.ne digit sign)
  rw [isSpace, hne ' ' rfl (by decide), hne '\n' rfl (by decide), hne '\r' rfl (by decide),
    hne '\t' rfl (by decide)]
  rfl

theorem Integer.exists_leads {n : Int} (h : Integer cs n rest) :
    ∃ c cs', cs = c :: cs' ∧ Leads c := by
  cases h with
  | @natural digits rest numeral ended =>
    obtain ⟨c, ds, rfl⟩ := List.exists_cons_of_ne_nil numeral.1
    exact ⟨c, ds ++ rest, rfl, .inl (List.all_eq_true.1 numeral.2.1 c List.mem_cons_self)⟩
  | negative numeral ended => exact ⟨_, _, rfl, .inr rfl⟩

@[grind →]
theorem Integer.length_lt {n : Int} (h : Integer cs n rest) : rest.length < cs.length := by
  cases h with
  | natural numeral ended =>
    have hdigits := List.length_pos_iff.2 numeral.1
    simp only [List.length_append]
    omega
  | negative numeral ended =>
    simp only [List.length_cons, List.length_append]
    omega

theorem integer?_of_integer {n : Int} (h : Integer cs n rest) : integer? cs = some (n, rest) := by
  cases h with
  | @natural digits _ numeral ended =>
    rw [integer?, natural?_append numeral ended]
    · rfl
    · intro ds hds
      obtain ⟨c, digits, rfl⟩ := List.exists_cons_of_ne_nil numeral.1
      obtain ⟨rfl, -⟩ := List.cons.inj hds
      exact absurd (List.all_eq_true.1 numeral.2.1 _ List.mem_cons_self) (by decide)
  | negative numeral ended =>
    rw [integer?, natural?_append numeral ended]
    rfl

theorem value?_of_integer {n : Int} (h : Integer cs n rest) (fuel : Nat) :
    value? (fuel + 1) cs = some (.number n, rest) := by
  obtain ⟨c, cs', rfl, hc⟩ := h.exists_leads
  rw [value?, integer?_of_integer h]
  · rfl
  all_goals
    rintro _ ⟨⟩
    exact absurd hc (by unfold Leads; decide)

/-- A phrase begins with no blank space, and with no bracket that closes anything. -/
theorem Reads.exists_cons {p : Phrase} (h : Reads cs p rest) :
    ∃ c cs', cs = c :: cs' ∧ isSpace c = false ∧ c ≠ ']' ∧ c ≠ '\x7d' := by
  induction h with
  | number integer =>
    obtain ⟨c, cs', rfl, hc⟩ := integer.exists_leads
    exact ⟨c, cs', rfl, hc.not_space, hc.ne rfl (by decide), hc.ne rfl (by decide)⟩
  | lastItem _ _ ih | item _ _ _ _ ih => exact ih
  | _ => exact ⟨_, _, rfl, by decide, by decide, by decide⟩

theorem Reads.noSpace {p : Phrase} (h : Reads cs p rest) : NoSpace cs := by
  obtain ⟨c, cs', rfl, hc, -⟩ := h.exists_cons
  exact noSpace_cons hc cs'

@[grind →]
theorem Reads.length_lt {p : Phrase} (h : Reads cs p rest) : rest.length < cs.length := by
  induction h with
  | _ => grind

/-- The decoder reads a phrase in front of the rest. -/
def Phrase.ReadBy : Phrase → Nat → List Char → List Char → Prop
  | .value j, fuel, cs, rest => value? fuel cs = some (j, rest)
  | .items xs, fuel, cs, rest => items? fuel cs = some (xs, rest)
  | .fields fs, fuel, cs, rest => fields? fuel cs = some (fs, rest)

/-- A phrase is read with any more fuel than this. -/
def Phrase.fuel : Phrase → List Char → Nat
  | .value _, cs => 2 * cs.length
  | _, cs => 2 * cs.length + 1

/-- Every phrase of the grammar is read, in whatever way it is written. -/
theorem Reads.readBy {p : Phrase} (h : Reads cs p rest) {fuel : Nat} (enough : p.fuel cs < fuel) :
    p.ReadBy fuel cs rest := by
  -- whatever the phrase is, there is a unit of fuel for it, and enough is left for its parts
  induction h generalizing fuel with
    obtain ⟨fuel, rfl⟩ := Nat.exists_eq_add_one_of_ne_zero (Nat.ne_zero_of_lt enough)
  | null => rfl
  | number integer => exact value?_of_integer integer fuel
  | text letters =>
    rw [Phrase.ReadBy, value?, letters?_of_letters letters (by grind [Phrase.fuel])]
    rfl
  | emptyList gap =>
    rw [Phrase.ReadBy, value?, gap.skip_eq (noSpace_cons rfl _)]
    rfl
  | @list cs cs' rest xs gap inside ih =>
    have hitems : items? fuel cs' = some (xs, rest) := ih (by grind [Phrase.fuel])
    obtain ⟨c, cs', rfl, -, hclosing, -⟩ := inside.exists_cons
    rw [Phrase.ReadBy, value?, gap.skip_eq inside.noSpace]
    split
    · next h => exact absurd (List.cons.inj h).1 hclosing
    · rw [hitems]
      rfl
  | emptyRecord gap =>
    rw [Phrase.ReadBy, value?, gap.skip_eq (noSpace_cons rfl _)]
    rfl
  | @record cs cs' rest fs gap inside ih =>
    have hfields : fields? fuel cs' = some (fs, rest) := ih (by grind [Phrase.fuel])
    obtain ⟨c, cs', rfl, -, -, hclosing⟩ := inside.exists_cons
    rw [Phrase.ReadBy, value?, gap.skip_eq inside.noSpace]
    split
    · next h => exact absurd (List.cons.inj h).1 hclosing
    · rw [hfields]
      rfl
  | @lastItem cs cs' rest x item toClosing ih =>
    have hitem : value? fuel cs = some (x, cs') := ih (by grind [Phrase.fuel])
    simp only [Phrase.ReadBy, items?, hitem, Option.bind_eq_bind, Option.bind_some,
      toClosing.skip_eq (noSpace_cons rfl _)]
    rfl
  | @item cs cs₁ cs₂ cs₃ rest x xs item toComma toNext later ih ih' =>
    have hitem : value? fuel cs = some (x, cs₁) := ih (by grind [Phrase.fuel])
    have hlater : items? fuel cs₃ = some (xs, rest) := ih' (by grind [Phrase.fuel])
    simp only [Phrase.ReadBy, items?, hitem, Option.bind_eq_bind, Option.bind_some,
      toComma.skip_eq (noSpace_cons rfl _), toNext.skip_eq later.noSpace, hlater]
    rfl
  | @lastField cs cs₁ cs₂ cs₃ cs₄ rest k x key toColon toValue value toClosing ih =>
    have hkey : letters? fuel cs = some (k, cs₁) := letters?_of_letters key (by grind [Phrase.fuel])
    have hvalue : value? fuel cs₃ = some (x, cs₄) := ih (by grind [Phrase.fuel])
    simp only [Phrase.ReadBy, fields?, hkey, Option.bind_eq_bind, Option.bind_some,
      toColon.skip_eq (noSpace_cons rfl _), toValue.skip_eq value.noSpace, hvalue,
      toClosing.skip_eq (noSpace_cons rfl _)]
    rfl
  | @field cs cs₁ cs₂ cs₃ cs₄ cs₅ cs₆ rest k x fs key toColon toValue value toComma toNext later ih
      ih' =>
    have hkey : letters? fuel cs = some (k, cs₁) := letters?_of_letters key (by grind [Phrase.fuel])
    have hvalue : value? fuel cs₃ = some (x, cs₄) := ih (by grind [Phrase.fuel])
    have hlater : fields? fuel cs₆ = some (fs, rest) := ih' (by grind [Phrase.fuel])
    simp only [Phrase.ReadBy, fields?, hkey, Option.bind_eq_bind, Option.bind_some,
      toColon.skip_eq (noSpace_cons rfl _), toValue.skip_eq value.noSpace, hvalue,
      toComma.skip_eq (noSpace_cons rfl _), toNext.skip_eq later.noSpace, hlater]
    rfl

/-- Whatever the grammar takes a text to write is what the decoder reads. -/
theorem decode_of_denotes {text : String} {j : Json} (h : Denotes text.toList j) :
    decode text = some j := by
  obtain ⟨cs, rest, hfront, hreads, hbehind⟩ := h
  have hlength := hfront.length_le
  have hvalue : value? (2 * text.toList.length + 1) cs = some (j, rest) :=
    hreads.readBy (Nat.lt_succ_of_le (Nat.mul_le_mul_left 2 hlength))
  have hend : skip rest = [] := hbehind.skip_eq (by rintro _ ⟨⟩)
  rw [decode, hfront.skip_eq hreads.noSpace, hvalue]
  exact if_pos hend

example : decode " [ -7, \"\\u00C9\\ud83d\\ude00\\/\" ,\x7b\x7d]\n" =
    some (.list [.number (-7), .text "É😀/", .record []]) := by cbv

/-- No text writes two documents. -/
theorem Denotes.unique {cs : List Char} {j j' : Json} (h : Denotes cs j) (h' : Denotes cs j') :
    j = j' := by
  rw [← String.toList_ofList (l := cs)] at h h'
  exact Option.some.inj ((decode_of_denotes h).symm.trans (decode_of_denotes h'))

theorem decode_render (j : Json) : decode (render j) = some j :=
  decode_of_denotes (denotes_render j)

end TapeLang.Json
