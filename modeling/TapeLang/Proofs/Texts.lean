import Mathlib.Data.List.Induction
import TapeLang.Proofs.Reading
import TapeLang.Proofs.Written

/-!
# Texts and their programs

The code of a text is what stays when commentary and stray closing brackets are left out; every
character keeps its index in the text. When a text is read as a program, the flat form of the
program is the code of the text, each instruction placed at its character.
-/

namespace TapeLang

namespace Text

/-- The line and the column of the character at an index, both counted from one. -/
def place (cs : List Char) (i : Nat) : Nat × Nat :=
  ((cs.take i).count '\n' + 1, ((cs.take i).reverse.takeWhile (· ≠ '\n')).length + 1)

/-- The eight instruction characters. -/
def isInstruction (c : Char) : Bool := ['<', '>', '+', '-', '.', ',', '[', ']'].contains c

/-- The instruction characters of a text, each with its index. -/
def instructions (cs : List Char) : List (Char × Nat) :=
  cs.zipIdx.filter fun a => isInstruction a.1

/-- The instruction characters of a text without the closing brackets that close nothing. -/
def code (cs : List Char) : List (Char × Nat) := dropStrays kind 0 (instructions cs)

/-- The brackets of a text, matched with a stack. -/
def brackets (cs : List Char) : Brackets (Char × Nat) := Brackets.readAll kind {} cs.zipIdx

/-! ## Characters -/

/-- Every byte is the code of a character. -/
theorem toNat_ofNat (b : UInt8) : (Char.ofNat b.toNat).toNat = b.toNat := by
  have hvalid : b.toNat.isValidChar := by
    have hlt := b.toNat_lt
    exact .inl (by omega)
  rw [Char.ofNat, dif_pos hvalid]
  rfl

/-- An instruction character is the symbol of an operation or a bracket. -/
theorem isInstruction_cases {c : Char} (h : isInstruction c = true) :
    (∃ o : Op, c = o.symbol) ∨ c = '[' ∨ c = ']' := by
  simp only [isInstruction, List.contains_cons, List.contains_nil, Bool.or_false, Bool.or_eq_true,
    beq_iff_eq] at h
  rcases h with h | h | h | h | h | h | h | h
  · exact .inl ⟨.left, h⟩
  · exact .inl ⟨.right, h⟩
  · exact .inl ⟨.increment, h⟩
  · exact .inl ⟨.decrement, h⟩
  · exact .inl ⟨.output, h⟩
  · exact .inl ⟨.input, h⟩
  · exact .inr (.inl h)
  · exact .inr (.inr h)

@[simp] theorem isInstruction_symbol (o : Op) : isInstruction o.symbol = true := by
  cases o <;> decide

theorem ofChar?_eq (c : Char) :
    Token.Kind.ofChar? c = if isInstruction c then some (Token.Kind.ofChar c) else none := by
  cases h : Token.Kind.ofChar? c with
  | some k =>
    have hi : isInstruction c = true := by
      rw [Token.Kind.ofChar?] at h
      split at h
      · next hc => rw [hc]; decide
      · split at h
        · next hc => rw [hc]; decide
        · obtain ⟨o, ho, -⟩ := Option.map_eq_some_iff.1 h
          rw [← Op.ofChar?_eq_some_iff.1 ho, isInstruction_symbol]
    rw [if_pos hi, Token.Kind.ofChar, h, Option.getD_some]
  | none =>
    rw [if_neg]
    intro hi
    rcases isInstruction_cases hi with ⟨o, rfl⟩ | rfl | rfl
    · have := o.symbol_ne_opening
      have := o.symbol_ne_closing
      simp_all [Token.Kind.ofChar?]
    · exact absurd h (by decide)
    · exact absurd h (by decide)

/-- Commentary is no bracket. -/
theorem kind_of_not_isInstruction {a : Char × Nat} (h : isInstruction a.1 = false) :
    kind a = .other := by
  rw [kind, Token.Kind.ofChar, ofChar?_eq, h]
  rfl

/-- Each of the two brackets is the kind of one character alone. -/
theorem bracket_of_kind (a : Char × Nat) :
    (kind a = .opening → a.1 = '[') ∧ (kind a = .closing → a.1 = ']') := by
  cases hi : isInstruction a.1 with
  | false =>
    rw [kind_of_not_isInstruction hi]
    exact ⟨fun h => (by cases h), fun h => (by cases h)⟩
  | true =>
    rcases isInstruction_cases hi with ⟨o, h⟩ | h | h <;> simp [kind, h]

/-- The code of a text depends on its instruction characters alone. -/
theorem map_fst_code (cs : List Char) :
    (code cs).map Prod.fst = dropStrays Token.Kind.ofChar 0 (cs.filter isInstruction) := by
  have hfilter : (instructions cs).map Prod.fst = cs.filter isInstruction := by
    conv_rhs => rw [← List.zipIdx_map_fst 0 cs]
    rw [List.filter_map]
    rfl
  rw [← hfilter, dropStrays_map]
  rfl

/-! ## Places -/

theorem place_append {cs : List Char} {i : Nat} (h : i ≤ cs.length) (ds : List Char) :
    place (cs ++ ds) i = place cs i := by
  rw [place, place, List.take_append_of_le_length h]

/-- A newline begins another line, and any other character moves on by one column. -/
theorem place_snoc (cs : List Char) (c : Char) :
    place (cs ++ [c]) (cs ++ [c]).length =
      if c = '\n' then ((place cs cs.length).1 + 1, 1)
      else ((place cs cs.length).1, (place cs cs.length).2 + 1) := by
  simp only [place, List.take_length, List.count_append, List.reverse_append, List.reverse_cons,
    List.reverse_nil, List.nil_append, List.cons_append, List.takeWhile_cons]
  by_cases hc : c = '\n'
  · subst hc
    simp
  · simp [hc]

theorem instructions_snoc (cs : List Char) (c : Char) :
    instructions (cs ++ [c]) =
      instructions cs ++ if isInstruction c then [(c, cs.length)] else [] := by
  rw [instructions, List.zipIdx_append, List.filter_append, instructions]
  cases h : isInstruction c <;> simp [h]

theorem lt_of_mem_instructions {cs : List Char} {a : Char × Nat} (h : a ∈ instructions cs) :
    a.2 < cs.length := by
  have := (List.mem_zipIdx' (List.mem_of_mem_filter h)).1
  exact this

/-- The token of an instruction character. -/
def token (cs : List Char) (a : Char × Nat) : Token :=
  ⟨kind a, (place cs a.2).1, (place cs a.2).2⟩

/-- Reading characters keeps the place after the last one and a token for every instruction. -/
theorem scan_eq (cs : List Char) :
    Scan.over {} cs = ⟨(place cs cs.length).1, (place cs cs.length).2,
      ((instructions cs).map (token cs)).toArray⟩ := by
  induction cs using List.reverseRecOn with
  | nil => rfl
  | append_singleton cs c ih =>
    have htoken : ∀ a ∈ instructions cs, token (cs ++ [c]) a = token cs a := by
      intro a ha
      rw [token, token, place_append (Nat.le_of_lt (lt_of_mem_instructions ha))]
    have hlast : token (cs ++ [c]) (c, cs.length) =
        ⟨Token.Kind.ofChar c, (place cs cs.length).1, (place cs cs.length).2⟩ := by
      rw [token, place_append (Nat.le_refl _), kind]
    rw [Scan.over_append, ih, Scan.over_cons, Scan.over_nil, instructions_snoc, List.map_append,
      List.map_congr_left htoken, place_snoc, Scan.keep, ofChar?_eq]
    cases isInstruction c with
    | true =>
      simp only [if_true, Scan.advance, List.map_cons, hlast, List.map_nil]
      by_cases hc : c = '\n' <;> simp [hc]
    | false =>
      simp only [Bool.false_eq_true, if_false, Scan.advance, List.map_nil, List.append_nil]
      by_cases hc : c = '\n' <;> simp [hc]

/-! ## From characters to tokens -/

variable {text file : String} {k : Nat}

theorem tokens_ofText (text file : String) :
    ∃ last, (Source.ofText text file).tokens =
      ((instructions text.toList).map (token text.toList)).toArray.push last := by
  refine ⟨⟨.finish, (place text.toList text.toList.length).1,
    (place text.toList text.toList.length).2⟩, ?_⟩
  rw [Source.ofText, Source.ofLines, Token.scan, scan_eq]

theorem size_ofText (text file : String) :
    (Source.ofText text file).tokens.size = (instructions text.toList).length + 1 := by
  obtain ⟨last, h⟩ := tokens_ofText text file
  rw [h, Array.size_push, List.size_toArray, List.length_map]

/-- Where a character stands, as a location in the file. -/
def location (text file : String) (i : Nat) : Location where
  file := file
  line := (place text.toList i).1
  column := (place text.toList i).2
  statement := (Source.ofText text file).statement (place text.toList i).1

/-- The instruction character with a given number. -/
def entry (cs : List Char) (k : Nat) : Char × Nat := ((instructions cs)[k]?).getD (' ', 0)

theorem map_entry (cs : List Char) :
    (List.range (instructions cs).length).map (entry cs) = instructions cs := by
  apply List.ext_getElem
  · simp
  · intro k hk hk'
    simp [entry, List.getElem?_eq_getElem hk']

theorem isInstruction_entry {cs : List Char} (hk : k < (instructions cs).length) :
    isInstruction (entry cs k).1 = true := by
  rw [entry, List.getElem?_eq_getElem hk, Option.getD_some]
  exact (List.mem_filter.1 (List.getElem_mem hk)).2

theorem getElem?_tokens_ofText (hk : k < (instructions text.toList).length) :
    (Source.ofText text file).tokens[k]? = some (token text.toList (entry text.toList k)) := by
  obtain ⟨last, h⟩ := tokens_ofText text file
  rw [h, Array.getElem?_push_lt (by simpa using hk), entry, List.getElem?_eq_getElem hk]
  simp

theorem kind_ofText (hk : k ∈ List.range (instructions text.toList).length) :
    (Source.ofText text file).kind k = (kind ∘ entry text.toList) k := by
  rw [Source.kind, getElem?_tokens_ofText (List.mem_range.1 hk)]
  rfl

theorem place_ofText (hk : k < (instructions text.toList).length) :
    (Source.ofText text file).place k = location text file (entry text.toList k).2 := by
  rw [Source.place, getElem?_tokens_ofText hk]
  rfl

/-- The brackets of the tokens are the brackets of the text. -/
theorem brackets_ofText (text file : String) :
    (Source.ofText text file).brackets.map (entry text.toList) = brackets text.toList := by
  have hfilter : (brackets text.toList) = Brackets.readAll kind {} (instructions text.toList) := by
    refine (Brackets.readAll_filter _ _ fun a _ ha => ?_).symm
    rw [kind_of_not_isInstruction ha]
    decide
  rw [hfilter, Source.brackets, size_ofText, Nat.add_sub_cancel,
    Brackets.readAll_congr fun _ => kind_ofText, ← Brackets.readAll_map, map_entry]
  rfl

/-- The sign of a token is the character that it was read from, with its place. -/
theorem sign?_ofText (hk : k < (instructions text.toList).length) :
    (Source.ofText text file).sign? k =
      some ((entry text.toList k).1, if (entry text.toList k).1 = ']' then none
        else some (location text file (entry text.toList k).2)) := by
  rw [Source.sign?, kind_ofText (List.mem_range.2 hk), place_ofText hk, Function.comp, kind]
  rcases isInstruction_cases (isInstruction_entry hk) with ⟨o, h⟩ | h | h
  · rw [h, Token.Kind.ofChar_symbol, if_neg o.symbol_ne_closing]
  · rw [h, Token.Kind.ofChar_opening]
    rfl
  · rw [h, Token.Kind.ofChar_closing]
    rfl

/-- Statements that the tokens of a text spell are the code of the text. -/
theorem flat_of_spells {ns : List Node}
    (h : Spells (Source.ofText text file) true 0 (instructions text.toList).length ns) :
    Node.flat ns = (code text.toList).map fun a =>
      (a.1, if a.1 = ']' then none else some (location text file a.2)) := by
  have hsign : ∀ k ∈ dropStrays (Source.ofText text file).kind 0
      (List.range (instructions text.toList).length),
      (Source.ofText text file).sign? k = some ((entry text.toList k).1,
        if (entry text.toList k).1 = ']' then none
        else some (location text file (entry text.toList k).2)) :=
    fun k hk => sign?_ofText (List.mem_range.1 ((dropStrays_sublist _ _ _).subset hk))
  rw [h.flat_eq, ← Source.range_eq_span, List.filterMap_congr hsign, code,
    ← map_entry text.toList, dropStrays_map, ← dropStrays_congr fun _ => kind_ofText,
    List.map_map, map_entry]
  exact congrFun List.filterMap_eq_map' _

/-! ## Programs of texts -/

/-- The flat form of a program is the code of its text, each instruction at its character. -/
theorem flat_parse {p : Program} (h : Program.parse text file = .ok p) :
    Node.flat p.statements = (code text.toList).map fun a =>
      (a.1, if a.1 = ']' then none else some (location text file a.2)) := by
  obtain ⟨-, hns, -, -⟩ := Program.ofSource_eq_ok_iff.1 h
  rw [size_ofText, Nat.add_sub_cancel] at hns
  exact flat_of_spells hns

/-- A program is nested as deeply as the brackets of its text. -/
theorem depth_parse {p : Program} (h : Program.parse text file = .ok p) (m : Nat) :
    (∀ q ∈ (brackets text.toList).pairs, q.level ≤ m) ↔ Node.depth p.statements ≤ m := by
  obtain ⟨-, hns, -, -⟩ := Program.ofSource_eq_ok_iff.1 h
  obtain ⟨hopen, hlevel⟩ := Source.brackets_of_spells hns
  have hsettled : (Source.ofText text file).brackets.settled =
      (Source.ofText text file).brackets.pairs := by
    simp only [Brackets.settled, hopen, List.all_nil, List.filter_true]
  rw [← hlevel m, hsettled, ← brackets_ofText text file]
  exact List.forall_mem_map

/-- A text is a program when no bracket is left open and no pair lies too deep. -/
theorem exists_parse (text file : String) (ho : (brackets text.toList).opened = [])
    (hl : ∀ p ∈ (brackets text.toList).pairs, p.level ≤ Program.maxNesting) :
    ∃ p, Program.parse text file = .ok p := by
  have ht : (Source.ofText text file).tokens.size ≠ 0 := by
    rw [size_ofText]
    exact Nat.succ_ne_zero _
  have hb := brackets_ofText text file
  rw [Program.parse, Source.ok_iff_refusal ht, Source.refusal?_eq_none_iff]
  constructor
  · intro p hp
    refine hl ⟨entry text.toList p.opening, entry text.toList p.closing, p.level⟩ ?_
    rw [← hb]
    exact List.mem_map_of_mem (List.mem_of_mem_filter hp)
  · have hnil : (Source.ofText text file).brackets.opened = [] := by
      rw [← hb] at ho
      exact List.map_eq_nil_iff.1 ho
    rw [Brackets.leftmost?, hnil]
    rfl

end Text

end TapeLang
