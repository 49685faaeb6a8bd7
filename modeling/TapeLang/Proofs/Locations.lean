import Mathlib.Data.List.TakeWhile
import Mathlib.Data.Prod.Lex
import TapeLang.Proofs.Texts

/-!
# Where instructions stand

Reading counts lines and columns one character at a time, and takes the statement of a line from a
separate cut of the text at its newlines. Both speak of the same places: the character at an index
is the one that its line holds at its column. So every location of a program points at the symbol of
its node, and in preorder the locations list the instruction characters of the text.
-/

namespace TapeLang

namespace Text

/-! ## Lines and places -/

/-- The lines of a text are the pieces between its newlines. -/
theorem lines_eq_splitOn (cs : List Char) : lines cs = cs.splitOn '\n' := by
  induction cs with
  | nil => rfl
  | cons c cs ih =>
    rw [lines_cons, ih, List.splitOn_eq_splitOnP, List.splitOn_eq_splitOnP,
      List.splitOnP_cons_eq_if_modifyHead]
    cases hl : cs.splitOnP (· == '\n') with
    | nil => exact absurd hl (List.splitOnP_ne_nil _ _)
    | cons l rest => by_cases hc : c = '\n' <;> simp [addFront, hc]

theorem exists_lines_eq_cons (cs : List Char) : ∃ l rest, lines cs = l :: rest :=
  List.exists_cons_of_ne_nil (lines_ne_nil cs)

/-- A newline in front moves everything down by one line; any other character moves the first line
to the right by one column. -/
theorem place_cons (c : Char) (cs : List Char) (i : Nat) :
    place (c :: cs) (i + 1) =
      if c = '\n' then ((place cs i).1 + 1, (place cs i).2)
      else if (place cs i).1 = 1 then (1, (place cs i).2 + 1) else place cs i := by
  simp only [place, List.take_succ_cons, List.reverse_cons, List.takeWhile_append,
    List.count_cons, Nat.add_eq_right, List.count_eq_zero]
  by_cases hn : '\n' ∈ cs.take i
  · have hpart : ((cs.take i).reverse.takeWhile (· ≠ '\n')).length ≠
        (cs.take i).reverse.length := by
      intro h
      have hall := List.takeWhile_eq_self_iff.1 ((List.takeWhile_prefix _).eq_of_length h)
      simpa using hall '\n' (List.mem_reverse.2 hn)
    rw [if_neg hpart, if_neg (not_not_intro hn)]
    by_cases hc : c = '\n' <;> simp [hc]
  · have hall : (cs.take i).reverse.takeWhile (· ≠ '\n') = (cs.take i).reverse := by
      refine List.takeWhile_eq_self_iff.2 fun d hd => decide_eq_true ?_
      rintro rfl
      exact hn (List.mem_reverse.1 hd)
    rw [hall, if_pos rfl, if_pos hn]
    by_cases hc : c = '\n' <;> simp [hc, List.count_eq_zero_of_not_mem hn]

theorem place_pos (cs : List Char) (i : Nat) : 1 ≤ (place cs i).1 ∧ 1 ≤ (place cs i).2 :=
  ⟨Nat.le_add_left 1 _, Nat.le_add_left 1 _⟩

/-- The character that a line holds at a column is the one whose place this is. -/
theorem getElem?_line_iff {cs : List Char} {row col : Nat} {c : Char} :
    (∃ xs, (lines cs)[row]? = some xs ∧ xs[col]? = some c) ↔
      ∃ i, cs[i]? = some c ∧ c ≠ '\n' ∧ place cs i = (row + 1, col + 1) := by
  induction cs generalizing row col with
  | nil => cases row <;> simp
  | cons d cs ih =>
    obtain ⟨l, rest, hl⟩ := exists_lines_eq_cons cs
    rw [hl] at ih
    -- the character in front has index zero, and all others come one index later
    rw [lines_cons, hl, addFront, ← Nat.or_exists_add_one]
    have hzero : place (d :: cs) 0 = (1, 1) := rfl
    simp only [List.getElem?_cons_zero, List.getElem?_cons_succ, place_cons, hzero,
      Option.some.injEq, Prod.mk.injEq]
    by_cases hd : d = '\n'
    · subst hd
      simp only [if_true]
      cases row with
      | zero =>
        have hlow : ∀ n, (place cs n).1 ≠ 0 := fun n => Nat.ne_of_gt (place_pos cs n).1
        simp [hlow]
        rintro rfl h
        exact absurd rfl h
      | succ row =>
        rw [List.getElem?_cons_succ, ih]
        simp [Prod.ext_iff]
    · simp only [if_neg hd]
      cases row with
      | zero =>
        have hright : ∀ n, (if (place cs n).1 = 1 then (1, (place cs n).2 + 1) else place cs n) =
            (0 + 1, col + 1) ↔ place cs n = (1, col) := by
          intro n
          by_cases h : (place cs n).1 = 1 <;> simp [h, Prod.ext_iff]
        simp only [hright]
        cases col with
        | zero =>
          have hlow : ∀ n, place cs n ≠ (1, 0) := by
            intro n h
            exact absurd (congrArg Prod.snd h) (Nat.ne_of_gt (place_pos cs n).2)
          simp only [List.getElem?_cons_zero, Option.some.injEq, exists_eq_left', hlow, and_false,
            exists_false, or_false, and_true]
          constructor
          · rintro rfl
            exact ⟨rfl, hd⟩
          · exact fun h => h.1
        | succ col =>
          have h := @ih 0 col
          simpa using h
      | succ row =>
        have hdown : ∀ n, (if (place cs n).1 = 1 then (1, (place cs n).2 + 1) else place cs n) =
            (row + 1 + 1, col + 1) ↔ place cs n = (row + 1 + 1, col + 1) := by
          intro n
          by_cases h : (place cs n).1 = 1 <;> simp [h, Prod.ext_iff]
        rw [List.getElem?_cons_succ, ← List.getElem?_cons_succ, ih]
        simp [hdown]

/-- The place after a text: on its last line, one column after the last character. -/
theorem place_length (cs : List Char) :
    (lines cs).length = (place cs cs.length).1 ∧
      ((lines cs).getLast (lines_ne_nil cs)).length + 1 = (place cs cs.length).2 := by
  induction cs with
  | nil => exact ⟨rfl, rfl⟩
  | cons c cs ih =>
    obtain ⟨l, rest, hl⟩ := exists_lines_eq_cons cs
    simp only [lines_cons, hl, addFront, List.length_cons, place_cons] at ih ⊢
    rw [← ih.1, ← ih.2]
    by_cases hc : c = '\n'
    · simp [hc]
    · cases rest with
      | nil => simp [hc]
      | cons l' rest => simpa [hc] using ih

theorem place_succ {cs : List Char} {i : Nat} {c : Char} (h : cs[i]? = some c) :
    place cs (i + 1) =
      if c = '\n' then ((place cs i).1 + 1, 1) else ((place cs i).1, (place cs i).2 + 1) := by
  obtain ⟨hi, rfl⟩ := List.getElem?_eq_some_iff.1 h
  have hlen : (cs.take i).length = i := List.length_take_of_le (Nat.le_of_lt hi)
  have hbefore : place cs i = place (cs.take i) i := by
    rw [place, place, List.take_take, Nat.min_self]
  have hafter : place cs (i + 1) = place (cs.take i ++ [cs[i]]) (i + 1) := by
    rw [List.take_append_getElem hi, place, place, List.take_take, Nat.min_self]
  have hsnoc := place_snoc (cs.take i) cs[i]
  rw [List.length_append, List.length_singleton, hlen] at hsnoc
  rw [hafter, hsnoc, hbefore]

/-- Later characters stand at later places. -/
theorem place_lt {cs : List Char} {i j : Nat} (hij : i < j) (hj : j ≤ cs.length) :
    Prod.Lex (· < ·) (· < ·) (place cs i) (place cs j) := by
  induction j with
  | zero => exact absurd hij (Nat.not_lt_zero i)
  | succ j ih =>
    have hstep : Prod.Lex (· < ·) (· < ·) (place cs j) (place cs (j + 1)) := by
      rw [place_succ (List.getElem?_eq_getElem hj), Prod.lex_def]
      by_cases hc : cs[j] = '\n' <;> simp [hc]
    rcases Nat.lt_succ_iff_lt_or_eq.1 hij with h | rfl
    · exact Trans.trans (ih h (Nat.le_of_lt hj)) hstep
    · exact hstep

/-! ## Statements -/

/-- Stripping leaves something of a line that is not blank. -/
theorem strip_ne_nil {cs : List Char} {c : Char} (hc : c ∈ cs) (hb : isBlank c = false) :
    strip cs ≠ [] := by
  intro h
  have hback := List.dropWhile_eq_nil_iff.1 (List.reverse_eq_nil_iff.1 h)
  have hfront : cs.dropWhile isBlank = [] := by
    by_contra hne
    have hhead := List.head_dropWhile_not isBlank hne
    rw [hback _ (List.mem_reverse.2 (List.head_mem hne))] at hhead
    exact Bool.noConfusion hhead
  exact Bool.noConfusion (hb.symm.trans (List.dropWhile_eq_nil_iff.1 hfront c hc))

theorem isBlank_of_isInstruction {c : Char} (h : isInstruction c = true) : isBlank c = false := by
  rcases isInstruction_cases h with ⟨o, rfl⟩ | rfl | rfl
  · cases o <;> decide
  · decide
  · decide

theorem ne_newline_of_isInstruction {c : Char} (h : isInstruction c = true) : c ≠ '\n' := by
  rintro rfl
  exact Bool.noConfusion h

/-- The statement of a line of the text is the line without the blank space at its ends. -/
theorem statement_ofText {text : String} (file : String) {row : Nat} {xs : List Char}
    (h : (lines text.toList)[row]? = some xs) :
    (Source.ofText text file).statement ((row + 1 : Nat) : Int) = String.ofList (strip xs) := by
  have hrow : (((row + 1 : Nat) : Int) - 1).toNat = row := by omega
  rw [Source.statement, if_neg (by omega), hrow, Source.ofText, Source.ofLines]
  simp [h]

end Text

namespace Node

/-- The listed nodes of a program are the instructions of its flat form, without closing
brackets. -/
theorem map_listing {ns : List Node} (h : Plain ns) (level : Nat) :
    (listing level ns).map (fun e => (e.2.symbol, e.2.location)) =
      ((flat ns).filter (·.1 ≠ ']')).map fun a => (a.1.toString, a.2) := by
  fun_induction listing level ns with
  | case1 => rw [flat]; rfl
  | case2 level l body rest ihBody ihRest =>
    rw [Plain] at h
    rw [flat, List.map_cons, List.map_append, ihBody h.1, ihRest h.2]
    simp [symbol, location]
  | case3 level n rest hn ih =>
    cases n with
    | op o l =>
      rw [Plain] at h
      rw [flat, List.map_cons, ih h]
      simp [symbol, location, o.symbol_ne_closing]
    | loop l body => exact absurd rfl (hn l body)
    | bare l => rw [Plain] at h; exact h.elim

end Node

namespace Text

variable {text file : String}

/-- The nodes of a program in preorder: each instruction but the closing brackets, at its
character. -/
theorem listing_parse {p : Program} (h : Program.parse text file = .ok p) :
    (Node.listing 0 p.statements).map (fun e => (e.2.symbol, e.2.location)) =
      ((instructions text.toList).filter (·.1 ≠ ']')).map fun a =>
        (a.1.toString, some (location text file a.2)) := by
  obtain ⟨-, hns, -, -⟩ := Program.ofSource_eq_ok_iff.1 h
  have hcode : (code text.toList).filter (·.1 ≠ ']') =
      (instructions text.toList).filter (·.1 ≠ ']') :=
    filter_dropStrays
      (fun a ha => decide_eq_false (not_not_intro ((bracket_of_kind a).2 ha))) 0 _
  rw [Node.map_listing hns.plain, flat_parse h, List.filter_map, List.map_map, ← hcode]
  apply List.map_congr_left
  intro a ha
  have hne : a.1 ≠ ']' := of_decide_eq_true (List.mem_filter.1 ha).2
  simp only [Function.comp_apply, if_neg hne]

theorem mem_instructions {cs : List Char} {c : Char} {i : Nat} :
    (c, i) ∈ instructions cs ↔ cs[i]? = some c ∧ isInstruction c = true := by
  rw [instructions, List.mem_filter, List.mk_mem_zipIdx_iff_getElem?]

end Text

/-- The location names the line, the column and the statement of a character of these lines. -/
structure Location.PointsAt (l : Location) (lines : List (List Char)) (c : Char) : Prop where
  line_pos : 1 ≤ l.line
  line_le : l.line ≤ lines.length
  column_pos : 1 ≤ l.column
  exists_line : ∃ xs, lines[(l.line - 1).toNat]? = some xs ∧ l.column ≤ xs.length ∧
    xs[(l.column - 1).toNat]? = some c ∧ l.statement = String.ofList (Text.strip xs)
  statement_ne : l.statement ≠ ""

/-- The lines and columns of the nodes of a program, in preorder. -/
def Program.places (p : Program) : List (Int × Int) :=
  (Node.listing 0 p.statements).filterMap fun e => e.2.location.map fun l => (l.line, l.column)

namespace Text

variable {text file : String}

/-- The location of an instruction character points at it. -/
theorem pointsAt_location {c : Char} {i : Nat} (h : (c, i) ∈ instructions text.toList) :
    (location text file i).PointsAt (lines text.toList) c := by
  obtain ⟨hi, hc⟩ := mem_instructions.1 h
  have hblank := isBlank_of_isInstruction hc
  obtain ⟨hpos, hpos'⟩ := place_pos text.toList i
  obtain ⟨xs, hline, hcol⟩ := getElem?_line_iff.2 ⟨i, hi, ne_newline_of_isInstruction hc,
    Prod.ext (Nat.sub_add_cancel hpos).symm (Nat.sub_add_cancel hpos').symm⟩
  obtain ⟨hrow, -⟩ := List.getElem?_eq_some_iff.1 hline
  obtain ⟨hlen, -⟩ := List.getElem?_eq_some_iff.1 hcol
  have hstatement : (location text file i).statement = String.ofList (strip xs) := by
    rw [← statement_ofText file hline, Nat.sub_add_cancel hpos]
    rfl
  have hline' : ((location text file i).line - 1).toNat = (place text.toList i).1 - 1 := by
    simp only [location]
    omega
  have hcol' : ((location text file i).column - 1).toNat = (place text.toList i).2 - 1 := by
    simp only [location]
    omega
  exact {
    line_pos := Int.ofNat_le.2 hpos
    line_le := by simp only [location]; omega
    column_pos := Int.ofNat_le.2 hpos'
    exists_line := by
      refine ⟨xs, by rw [hline', hline], ?_, by rw [hcol', hcol], hstatement⟩
      simp only [location]
      omega
    statement_ne := by
      rw [hstatement]
      intro he
      exact strip_ne_nil (List.mem_of_getElem? hcol) hblank (String.ofList_eq_empty_iff.1 he) }

/-- The places of a program are those of its instructions but the closing brackets. -/
theorem places_parse {p : Program} (h : Program.parse text file = .ok p) :
    p.places = ((instructions text.toList).filter (·.1 ≠ ']')).map fun a =>
      (((place text.toList a.2).1 : Int), ((place text.toList a.2).2 : Int)) := by
  have hmap := congrArg (List.filterMap fun s : String × Option Location =>
    s.2.map fun l => (l.line, l.column)) (listing_parse h)
  rw [List.filterMap_map, List.filterMap_map] at hmap
  exact hmap.trans (congrFun List.filterMap_eq_map' _)

theorem pairwise_instructions (cs : List Char) :
    (instructions cs).Pairwise fun a b => a.2 < b.2 := by
  have hsorted : (cs.zipIdx.map Prod.snd).Pairwise (· < ·) := by
    rw [List.zipIdx_map_snd]
    exact List.pairwise_lt_range'
  exact (List.pairwise_map.1 hsorted).filter _

/-- In preorder the places are strictly increasing. -/
theorem pairwise_places {p : Program} (h : Program.parse text file = .ok p) :
    p.places.Pairwise (Prod.Lex (· < ·) (· < ·)) := by
  rw [places_parse h, List.pairwise_map]
  refine ((pairwise_instructions text.toList).filter _).imp_of_mem ?_
  intro a b _ hb hab
  have hlt := place_lt hab (Nat.le_of_lt (lt_of_mem_instructions (List.mem_of_mem_filter hb)))
  rw [Prod.lex_def] at hlt ⊢
  simpa only [Int.ofNat_lt, Int.ofNat_inj] using hlt

/-- A row and a column are the place of a node when an instruction other than a closing bracket
stands there. -/
theorem mem_places_iff {p : Program} (h : Program.parse text file = .ok p) {row col : Nat} :
    (((row + 1 : Nat) : Int), ((col + 1 : Nat) : Int)) ∈ p.places ↔
      ∃ xs c, (lines text.toList)[row]? = some xs ∧ xs[col]? = some c ∧
        isInstruction c = true ∧ c ≠ ']' := by
  rw [places_parse h]
  constructor
  · intro hmem
    obtain ⟨⟨c, i⟩, ha, heq⟩ := List.mem_map.1 hmem
    obtain ⟨ha, hne⟩ := List.mem_filter.1 ha
    obtain ⟨hi, hc⟩ := mem_instructions.1 ha
    obtain ⟨hrow, hcol⟩ := Prod.mk.inj heq
    obtain ⟨xs, hline, hget⟩ := getElem?_line_iff.2 ⟨i, hi, ne_newline_of_isInstruction hc,
      Prod.ext (Int.ofNat_inj.1 hrow) (Int.ofNat_inj.1 hcol)⟩
    exact ⟨xs, c, hline, hget, hc, of_decide_eq_true hne⟩
  · rintro ⟨xs, c, hline, hcol, hc, hne⟩
    obtain ⟨i, hi, -, hplace⟩ := getElem?_line_iff.1 ⟨xs, hline, hcol⟩
    refine List.mem_map.2 ⟨(c, i), List.mem_filter.2
      ⟨mem_instructions.2 ⟨hi, hc⟩, decide_eq_true hne⟩, ?_⟩
    rw [hplace]

/-- The end of a program is on the last line of its text, one column after its last character. -/
theorem finish_parse {p : Program} (h : Program.parse text file = .ok p) :
    p.finish = ⟨file, (lines text.toList).length,
      ((lines text.toList).getLast (lines_ne_nil _)).length + 1,
      String.ofList (strip ((lines text.toList).getLast (lines_ne_nil _)))⟩ := by
  obtain ⟨-, -, -, hfinish⟩ := Program.ofSource_eq_ok_iff.1 h
  obtain ⟨hrow, hcol⟩ := place_length text.toList
  have htoken : (Source.ofText text file).tokens[(Source.ofText text file).tokens.size - 1]? =
      some ⟨.finish, (lines text.toList).length,
        ((lines text.toList).getLast (lines_ne_nil _)).length + 1⟩ := by
    rw [Source.ofText, Source.ofLines, Token.scan, scan_eq, ← hrow, ← hcol]
    simp
  have hline : (lines text.toList)[(lines text.toList).length - 1]? =
      some ((lines text.toList).getLast (lines_ne_nil _)) := by
    rw [← List.getLast?_eq_getElem?, List.getLast?_eq_getLast_of_ne_nil]
  have hsize := Nat.sub_add_cancel (List.length_pos_of_ne_nil (lines_ne_nil text.toList))
  rw [hfinish, Source.place, htoken, Option.getD_some, Source.location,
    ← statement_ofText file hline, hsize]
  rfl

end Text

/-- Locations point at the text: every node at its symbol, the nodes in preorder one after another
at all instruction characters but the closing brackets, and the program at the end. -/
theorem parse_locates {text file : String} {p : Program} (h : Program.parse text file = .ok p) :
    (∀ e ∈ Node.listing 0 p.statements, ∃ l c, e.2.location = some l ∧ l.file = file ∧
      e.2.symbol = c.toString ∧ l.PointsAt (text.toList.splitOn '\n') c) ∧
    p.places.Pairwise (Prod.Lex (· < ·) (· < ·)) ∧
    (∀ row col : Nat, (((row + 1 : Nat) : Int), ((col + 1 : Nat) : Int)) ∈ p.places ↔
      ∃ xs c, (text.toList.splitOn '\n')[row]? = some xs ∧ xs[col]? = some c ∧
        Text.isInstruction c = true ∧ c ≠ ']') ∧
    ∃ last, (text.toList.splitOn '\n').getLast? = some last ∧
      p.finish = ⟨file, (text.toList.splitOn '\n').length, last.length + 1,
        String.ofList (Text.strip last)⟩ := by
  rw [← Text.lines_eq_splitOn]
  refine ⟨?_, Text.pairwise_places h, fun row col => Text.mem_places_iff h,
    _, List.getLast?_eq_getLast_of_ne_nil (Text.lines_ne_nil _), Text.finish_parse h⟩
  intro e he
  have hmem := List.mem_map_of_mem (f := fun e : Nat × Node => (e.2.symbol, e.2.location)) he
  rw [Text.listing_parse h] at hmem
  obtain ⟨⟨c, i⟩, ha, heq⟩ := List.mem_map.1 hmem
  obtain ⟨hsymbol, hlocation⟩ := Prod.mk.inj heq
  exact ⟨Text.location text file i, c, hlocation.symm, rfl, hsymbol.symm,
    Text.pointsAt_location (List.mem_of_mem_filter ha)⟩

/-- A carriage return and a line separator stay in their lines, a snake is one column wide, and a
stray bracket has no node. -/
theorem parse_locates_mixed :
    ∃ p, Program.parse "é\r\n ]+🐍[\u2028-] \n" "<string>" = .ok p ∧
      (2, 5) ∈ p.places ∧ (2, 7) ∈ p.places ∧ (2, 2) ∉ p.places ∧
      p.finish = ⟨"<string>", 3, 1, ""⟩ := by
  obtain ⟨p, hp⟩ := Text.exists_parse "é\r\n ]+🐍[\u2028-] \n" "<string>" (by decide) (by decide)
  obtain ⟨-, -, hmem, last, hlast, hfinish⟩ := parse_locates hp
  refine ⟨p, hp, ?_, ?_, ?_, ?_⟩
  · exact (hmem 1 4).2 ⟨" ]+🐍[\u2028-] ".toList, '[', by decide, by decide, by decide, by decide⟩
  · exact (hmem 1 6).2 ⟨" ]+🐍[\u2028-] ".toList, '-', by decide, by decide, by decide, by decide⟩
  · intro h
    obtain ⟨xs, c, hline, hcol, -, hne⟩ := (hmem 1 1).1 h
    obtain rfl : xs = " ]+🐍[\u2028-] ".toList := Option.some.inj (hline.symm.trans (by decide))
    exact hne (Option.some.inj (hcol.symm.trans (by decide)))
  · obtain rfl : last = [] := Option.some.inj (hlast.symm.trans (by decide))
    exact hfinish.trans (by decide)

end TapeLang
