import TapeLang.Proofs.Window

/-!
# Reading a dump

A dump of a tape can be read back. Its lines are rows, each with the index of its first cell in
front of a colon, and behind that five places for every cell: three for the value, between brackets
at the pointer and between spaces elsewhere. Put together, the rows show the cells from the first
one up to the last that is not zero, or up to the pointer if that is further right. So two tapes
have the same dump exactly when they have the same pointer and the same cells that are not zero.
-/

namespace TapeLang

/-! ## A reader -/

namespace Dump

/-- A row of a dump: the number that it is headed by, and the value of each of its cells together
with whether it is in brackets. -/
structure Row where
  start : Nat
  cells : List (Nat × Bool)
  deriving DecidableEq, Repr

/-- A number with spaces in front. -/
def padded? (text : List Char) : Option Nat := Text.number? (text.dropWhile fun c => c = ' ')

/-- The five places of a cell. -/
def cell? (before a b c behind : Char) : Option (Nat × Bool) :=
  if before = '[' ∧ behind = ']' then (padded? [a, b, c]).map fun n => (n, true)
  else if before = ' ' ∧ behind = ' ' then (padded? [a, b, c]).map fun n => (n, false)
  else none

/-- The cells of a row. -/
def cells? : List Char → Option (List (Nat × Bool))
  | [] => some []
  | before :: a :: b :: c :: behind :: text => do
    let cell ← cell? before a b c behind
    let cells ← cells? text
    return cell :: cells
  | _ => none

/-- A row: its heading, a colon, and its cells. -/
def row? (text : List Char) : Option Row :=
  match text.dropWhile fun c => c ≠ ':' with
  | [] => none
  | _ :: cells => do
    let start ← Text.number? (text.takeWhile fun c => c ≠ ':')
    let cells ← cells? cells
    return ⟨start, cells⟩

/-- The rows of a dump. -/
def rows? (text : String) : Option (List Row) := (text.toList.splitOn '\n').mapM row?

end Dump

namespace Tape

variable (t : Tape)

/-! ## Cells -/

/-- What a dump shows of the cell at an index: its value, and whether the pointer is there. -/
def shown (i : Nat) : Nat × Bool := ((t.around i).toNat, decide (i = t.pointer.val))

theorem toList_padded (pad : Char) (width n : Nat) :
    (padded pad width n).toList =
      List.replicate (width - (Nat.toDigits 10 n).length) pad ++ Nat.toDigits 10 n := by
  simp [padded, ← String.length_toList]

theorem not_mem_padded {c pad : Char} (hpad : c ≠ pad) (hc : c.isDigit = false) (width n : Nat) :
    c ∉ (padded pad width n).toList := by
  rw [toList_padded, List.mem_append]
  rintro (h | h)
  · exact hpad (List.eq_of_mem_replicate h)
  · exact Text.not_mem_toDigits hc n h

/-- Spaces in front of a number can be dropped. -/
theorem padded?_spaces (k n : Nat) :
    Dump.padded? (List.replicate k ' ' ++ Nat.toDigits 10 n) = some n := by
  have hdrop : (Nat.toDigits 10 n).dropWhile (fun c => c = ' ') = Nat.toDigits 10 n := by
    have hspace := Text.not_mem_toDigits (c := ' ') (by decide) n
    cases hdigits : Nat.toDigits 10 n with
    | nil => rfl
    | cons c digits =>
      rw [hdigits, List.mem_cons, not_or] at hspace
      apply List.dropWhile_cons_of_neg
      simpa using Ne.symm hspace.1
  rw [Dump.padded?, List.dropWhile_append_of_pos, hdrop, Text.number?_toDigits]
  intro c hc
  rw [List.eq_of_mem_replicate hc]
  decide

/-- The value of a cell takes three places. -/
theorem exists_padded (v : UInt8) :
    ∃ a b c, (padded ' ' 3 v.toNat).toList = [a, b, c] ∧ Dump.padded? [a, b, c] = some v.toNat := by
  have hlength : (Nat.toDigits 10 v.toNat).length ≤ 3 := by
    rw [Nat.length_toDigits_le_iff (by decide) (by decide)]
    have hlt := v.toNat_lt
    omega
  have hthree : (padded ' ' 3 v.toNat).toList.length = 3 := by
    rw [toList_padded, List.length_append, List.length_replicate]
    omega
  obtain ⟨a, b, c, htext⟩ := List.length_eq_three.1 hthree
  refine ⟨a, b, c, htext, ?_⟩
  rw [← htext, toList_padded, padded?_spaces]

theorem toList_cellText (i : Nat) :
    (t.cellText i).toList =
      if i = t.pointer.val then '[' :: ((padded ' ' 3 (t.around i).toNat).toList ++ [']'])
      else ' ' :: ((padded ' ' 3 (t.around i).toNat).toList ++ [' ']) := by
  have hbrackets (value : String) : s!"[{value}]" = "[" ++ value ++ "]" := rfl
  have hspaces (value : String) : s!" {value} " = " " ++ value ++ " " := rfl
  unfold cellText
  simp only [hbrackets, hspaces]
  split <;> simp

/-- The text of a cell reads as what it shows. -/
theorem exists_cellText (i : Nat) :
    ∃ before a b c behind, (t.cellText i).toList = [before, a, b, c, behind] ∧
      Dump.cell? before a b c behind = some (t.shown i) := by
  obtain ⟨a, b, c, htext, hread⟩ := exists_padded (t.around i)
  rw [toList_cellText, htext]
  by_cases h : i = t.pointer.val
  · refine ⟨'[', a, b, c, ']', if_pos h, ?_⟩
    simp [Dump.cell?, hread, shown, h]
  · refine ⟨' ', a, b, c, ' ', if_neg h, ?_⟩
    simp [Dump.cell?, hread, shown, h]

/-- The texts of cells, one after the other, read as what they show. -/
theorem cells?_join (is : List Nat) :
    Dump.cells? (String.join (is.map t.cellText)).toList = some (is.map t.shown) := by
  rw [String.toList_join]
  induction is with
  | nil => simp [Dump.cells?]
  | cons i is ih =>
    obtain ⟨before, a, b, c, behind, htext, hread⟩ := t.exists_cellText i
    simp [htext, Dump.cells?, hread, ih]

/-! ## Rows -/

/-- The row that a dump shows from a cell on, if it ends before the cell `stop`. -/
def shownRow (stop start : Nat) : Dump.Row :=
  ⟨start, (List.range' start (min rowWidth (stop - start))).map t.shown⟩

theorem toList_row (stop start : Nat) :
    (t.row stop start).toList = (padded '0' 5 start).toList ++
      ':' :: (String.join ((List.range' start (min rowWidth (stop - start))).map
        t.cellText)).toList := by
  simp [row]

/-- The text of a row reads as what it shows. -/
theorem row?_row (stop start : Nat) :
    Dump.row? (t.row stop start).toList = some (t.shownRow stop start) := by
  have hheading : ∀ c ∈ (padded '0' 5 start).toList, decide (c ≠ ':') = true := by
    intro c hc
    apply decide_eq_true
    rintro rfl
    exact not_mem_padded (by decide) (by decide) 5 start hc
  have hnumber : Text.number? (padded '0' 5 start).toList = some start := by
    rw [toList_padded]
    exact Text.number?_zeros _ _
  unfold Dump.row?
  rw [toList_row, List.dropWhile_append_of_pos hheading, List.takeWhile_append_of_pos hheading,
    List.dropWhile_cons_of_neg (by simp), List.takeWhile_cons_of_neg (by simp), List.append_nil,
    hnumber]
  simp only [cells?_join]
  rfl

example : Dump.row? "00016:[  0] 255    7 ".toList =
    some ⟨16, [(0, true), (255, false), (7, false)]⟩ := by decide

theorem newline_not_mem_cellText (i : Nat) : '\n' ∉ (t.cellText i).toList := by
  have hvalue : '\n' ∉ (padded ' ' 3 (t.around i).toNat).toList :=
    not_mem_padded (by decide) (by decide) 3 _
  rw [toList_cellText]
  split <;> simpa using hvalue

/-- A row is one line. -/
theorem newline_not_mem_row (stop start : Nat) : '\n' ∉ (t.row stop start).toList := by
  rw [toList_row, String.toList_join, List.mem_append, List.mem_cons, List.mem_flatMap]
  rintro (hmem | hmem | ⟨text, htext, hmem⟩)
  · exact not_mem_padded (by decide) (by decide) 5 start hmem
  · exact absurd hmem (by decide)
  · obtain ⟨i, -, rfl⟩ := List.mem_map.1 htext
    exact t.newline_not_mem_cellText i hmem

/-- How many rows a dump has. -/
def rowCount : Nat := (t.used + rowWidth - 1) / rowWidth

/-- The rows that a dump shows. -/
def shownRows : List Dump.Row :=
  (List.range t.rowCount).map fun k => t.shownRow t.used (rowWidth * k)

theorem dump_eq : t.dump =
    "\n".intercalate ((List.range t.rowCount).map fun k => t.row t.used (rowWidth * k)) := rfl

/-- A dump is read as what it shows. -/
theorem rows?_dump : Dump.rows? t.dump = some t.shownRows := by
  have hlines : t.dump.toList.splitOn '\n' =
      (List.range t.rowCount).map fun k => (t.row t.used (rowWidth * k)).toList := by
    rw [dump_eq, String.toList_intercalate, List.map_map]
    apply List.splitOn_intercalate
    · intro line hline
      obtain ⟨k, -, rfl⟩ := List.mem_map.1 hline
      exact t.newline_not_mem_row _ _
    · have hcount : 0 < t.rowCount := by
        unfold rowCount used rowWidth
        omega
      simp only [ne_eq, List.map_eq_nil_iff, List.range_eq_nil]
      exact hcount.ne'
  have hread : (Dump.row? ∘ fun k => (t.row t.used (rowWidth * k)).toList) =
      fun k => pure (t.shownRow t.used (rowWidth * k)) := by
    funext k
    rw [Function.comp_apply, row?_row, Option.pure_def]
  rw [Dump.rows?, hlines, shownRows, List.mapM_map, hread, List.mapM_pure]
  rfl

/-- A row goes on where the rows above it end. -/
theorem range_append_row (stop n : Nat) :
    List.range (min stop (rowWidth * n)) ++
        List.range' (rowWidth * n) (min rowWidth (stop - rowWidth * n)) =
      List.range (min stop (rowWidth * (n + 1))) := by
  by_cases h : rowWidth * n ≤ stop
  · have hlength : min stop (rowWidth * (n + 1)) =
        rowWidth * n + min rowWidth (stop - rowWidth * n) := by
      rw [Nat.mul_succ]
      omega
    have hjoin := List.range'_append_1 (s := 0) (m := rowWidth * n)
      (n := min rowWidth (stop - rowWidth * n))
    rw [Nat.zero_add] at hjoin
    rw [Nat.min_eq_right h, hlength, List.range_eq_range', List.range_eq_range', hjoin]
  · -- the dump has ended before
    have hnone : min rowWidth (stop - rowWidth * n) = 0 := by omega
    have hall : min stop (rowWidth * (n + 1)) = min stop (rowWidth * n) := by
      rw [Nat.mul_succ]
      omega
    rw [hnone, hall, List.range'_zero, List.append_nil]

/-- The first rows show the cells in order, up to the end of the dump. -/
theorem flatMap_shownRow (stop n : Nat) :
    ((List.range n).map fun k => t.shownRow stop (rowWidth * k)).flatMap Dump.Row.cells =
      (List.range (min stop (rowWidth * n))).map t.shown := by
  induction n with
  | zero => simp
  | succ n ih =>
    rw [List.range_succ, List.map_append, List.flatMap_append, ih, ← range_append_row,
      List.map_append, List.map_singleton, List.flatMap_singleton, shownRow]

/-! ## The end of a dump -/

/-- The cell at an index is not zero. -/
def Marked (i : Nat) : Prop := ∃ v, t.cells[i]? = some v ∧ v ≠ 0

/-- The last cell that is not zero is at this index; if all cells are zero, the index is zero. -/
def LastMark (last : Nat) : Prop :=
  (t.Marked last ∧ ∀ i, t.Marked i → i ≤ last) ∨ last = 0 ∧ ∀ i, ¬t.Marked i

/-- Two tapes have the same cells that are not zero, at the same indices. -/
def SameMarks (t u : Tape) : Prop :=
  ∀ (i : Nat) (v : UInt8), v ≠ 0 → (t.cells[i]? = some v ↔ u.cells[i]? = some v)

theorem getElem?_cells {i : Nat} (h : i < t.length) : t.cells[i]? = some (t.around i) := by
  have hcell := t.around_val ⟨i, h⟩
  rw [Vector.getElem?_eq_getElem h]
  exact congrArg some hcell.symm

theorem Marked.lt {t : Tape} {i : Nat} (h : t.Marked i) : i < t.length := by
  obtain ⟨v, hv, -⟩ := h
  by_contra hle
  rw [Vector.getElem?_eq_none (Nat.not_lt.1 hle)] at hv
  cases hv

theorem mem_marks {i : Nat} {v : UInt8} : (i, v) ∈ t.marks ↔ t.cells[i]? = some v ∧ v ≠ 0 := by
  unfold marks
  rw [List.mem_filterMap]
  constructor
  · rintro ⟨j, -, h⟩
    simp only [Option.ite_none_left_eq_some, Option.some.injEq, Prod.mk.injEq] at h
    obtain ⟨hne, rfl, rfl⟩ := h
    exact ⟨Vector.getElem?_eq_getElem j.isLt, hne⟩
  · rintro ⟨hv, hne⟩
    have hlt : i < t.length := Marked.lt ⟨v, hv, hne⟩
    rw [Vector.getElem?_eq_getElem hlt] at hv
    refine ⟨⟨i, hlt⟩, List.mem_finRange _, ?_⟩
    simp [Option.some.inj hv, hne]

/-- The cells that are not zero are listed in order. -/
theorem pairwise_marks : t.marks.Pairwise fun a b => a.1 < b.1 := by
  unfold marks
  rw [List.pairwise_filterMap]
  apply (List.pairwise_lt_finRange t.length).imp
  intro i j hlt a ha b hb
  simp only [Option.ite_none_left_eq_some, Option.some.injEq] at ha hb
  obtain ⟨-, rfl⟩ := ha
  obtain ⟨-, rfl⟩ := hb
  exact hlt

/-- A dump ends behind the last cell that is not zero, or behind the pointer. -/
theorem exists_lastMark : ∃ last, t.LastMark last ∧ t.used = 1 + max t.pointer.val last := by
  refine ⟨(t.marks.getLast?.map Prod.fst).getD 0, ?_, ?_⟩
  · cases hmarks : t.marks.getLast? with
    | none =>
      refine .inr ⟨by simp, ?_⟩
      rintro i ⟨v, hv⟩
      have hmem := t.mem_marks.2 hv
      rw [List.getLast?_eq_none_iff.1 hmarks] at hmem
      exact List.not_mem_nil hmem
    | some mark =>
      obtain ⟨i, v⟩ := mark
      obtain ⟨front, hfront⟩ := List.getLast?_eq_some_iff.1 hmarks
      refine .inl ⟨⟨v, t.mem_marks.1 (by simp [hfront])⟩, ?_⟩
      rintro j ⟨w, hw⟩
      have hordered := t.pairwise_marks
      have hmem := t.mem_marks.2 hw
      rw [hfront] at hordered hmem
      rcases List.mem_append.1 hmem with hmem | hmem
      · exact ((List.pairwise_append.1 hordered).2.2 _ hmem _ List.mem_cons_self).le
      · cases List.mem_singleton.1 hmem
        exact Nat.le_refl _
  · unfold used
    omega

variable {t} {u : Tape} {last last' : Nat}

/-- Tapes with the same cells that are not zero have the last one at the same index. -/
theorem LastMark.unique (h : t.LastMark last) (h' : u.LastMark last')
    (hsame : ∀ i, t.Marked i ↔ u.Marked i) : last = last' := by
  rcases h with ⟨hmark, hlast⟩ | ⟨rfl, hnone⟩
  · rcases h' with ⟨hmark', hlast'⟩ | ⟨-, hnone'⟩
    · exact Nat.le_antisymm (hlast' _ ((hsame _).1 hmark)) (hlast _ ((hsame _).2 hmark'))
    · exact absurd ((hsame _).1 hmark) (hnone' _)
  · rcases h' with ⟨hmark', -⟩ | ⟨rfl, -⟩
    · exact absurd ((hsame _).2 hmark') (hnone _)
    · rfl

theorem LastMark.le (h : t.LastMark last) {i : Nat} (hi : t.Marked i) : i ≤ last := by
  rcases h with ⟨-, hlast⟩ | ⟨-, hnone⟩
  · exact hlast i hi
  · exact absurd hi (hnone i)

theorem LastMark.lt (h : t.LastMark last) : last < t.length := by
  rcases h with ⟨hmark, -⟩ | ⟨rfl, -⟩
  · exact hmark.lt
  · exact t.length_pos

theorem used_le : t.used ≤ t.length := by
  obtain ⟨last, hlast, hused⟩ := t.exists_lastMark
  have hpointer := t.pointer.isLt
  have hlt := hlast.lt
  omega

theorem Marked.lt_used {i : Nat} (h : t.Marked i) : i < t.used := by
  obtain ⟨last, hlast, hused⟩ := t.exists_lastMark
  have hle := hlast.le h
  omega

theorem pointer_lt_used : t.pointer.val < t.used := by
  unfold used
  omega

/-- Every row but the last one is full, and each is headed by the number of cells above it. -/
theorem shownRows_layout {k : Nat} {row : Dump.Row} (h : t.shownRows[k]? = some row) :
    row.start = ((t.shownRows.take k).flatMap Dump.Row.cells).length ∧
      1 ≤ row.cells.length ∧ row.cells.length ≤ 16 ∧
      (k + 1 < t.shownRows.length → row.cells.length = 16) := by
  have hk : k < t.rowCount := by
    simpa [shownRows] using (List.getElem?_eq_some_iff.1 h).1
  have hrow : row = t.shownRow t.used (rowWidth * k) := by
    rw [shownRows, List.getElem?_map, List.getElem?_range hk, Option.map_some] at h
    exact (Option.some.inj h).symm
  have habove : ((t.shownRows.take k).flatMap Dump.Row.cells).length =
      min t.used (rowWidth * k) := by
    rw [shownRows, ← List.map_take, List.take_range, Nat.min_eq_left hk.le, flatMap_shownRow,
      List.length_map, List.length_range]
  have hcells : row.cells.length = min rowWidth (t.used - rowWidth * k) := by
    rw [hrow, shownRow, List.length_map, List.length_range']
  have hrows : t.shownRows.length = t.rowCount := by
    rw [shownRows, List.length_map, List.length_range]
  have hstart : row.start = rowWidth * k := by rw [hrow, shownRow]
  rw [habove, hcells, hstart, hrows]
  unfold rowCount rowWidth at hk ⊢
  omega

/-- All rows together show the cells up to the end of the dump. -/
theorem flatMap_shownRows :
    t.shownRows.flatMap Dump.Row.cells = (List.range t.used).map t.shown := by
  have hall : min t.used (rowWidth * t.rowCount) = t.used := by
    unfold rowCount rowWidth
    omega
  rw [shownRows, flatMap_shownRow, hall]

/-- The cell in brackets is the pointer's. -/
theorem exists_bracketed_iff (i : Nat) :
    (∃ n, (t.shownRows.flatMap Dump.Row.cells)[i]? = some (n, true)) ↔ i = t.pointer.val := by
  rw [flatMap_shownRows, List.getElem?_map]
  by_cases hi : i < t.used
  · rw [List.getElem?_range hi]
    simp [shown]
  · have hne : i ≠ t.pointer.val := by
      have hlt := t.pointer_lt_used
      omega
    rw [List.getElem?_eq_none (by simpa using hi)]
    simp [hne]

theorem map_shown {stop : Nat} (h : stop ≤ t.length) :
    (List.range stop).map t.shown =
      (t.cells.toList.take stop).zipIdx.map
        fun (v, i) => (v.toNat, decide (i = t.pointer.val)) := by
  apply List.ext_getElem?
  intro i
  rw [List.getElem?_map, List.getElem?_map, List.getElem?_zipIdx]
  by_cases hi : i < stop
  · rw [List.getElem?_range hi, List.getElem?_take_of_lt hi, Vector.getElem?_toList,
      getElem?_cells t (by omega)]
    simp [shown]
  · rw [List.getElem?_eq_none (by simpa using hi), List.getElem?_eq_none (by simp; omega)]
    simp

/-! ## Dumps that are the same -/

/-- What dumps of the same text show is the same. -/
theorem shown_of_dump_eq (h : t.dump = u.dump) :
    t.used = u.used ∧ ∀ i < t.used, t.shown i = u.shown i := by
  have hrows : t.shownRows = u.shownRows := by
    apply Option.some.inj
    rw [← rows?_dump, ← rows?_dump, h]
  have hcells : (List.range t.used).map t.shown = (List.range u.used).map u.shown := by
    rw [← flatMap_shownRows, ← flatMap_shownRows, hrows]
  have hused : t.used = u.used := by
    simpa using congrArg List.length hcells
  refine ⟨hused, ?_⟩
  rw [← hused] at hcells
  intro i hi
  exact List.map_inj_left.1 hcells i (List.mem_range.2 hi)

/-- A tape has the cells that are not zero of any tape that shows the same. -/
theorem getElem?_of_shown (hshown : ∀ i < t.used, t.shown i = u.shown i) (hle : t.used ≤ u.length)
    {i : Nat} {v : UInt8} (hne : v ≠ 0) (hv : t.cells[i]? = some v) : u.cells[i]? = some v := by
  have hlt := Marked.lt_used ⟨v, hv, hne⟩
  have hsame : t.around i = u.around i :=
    UInt8.toNat_inj.1 (congrArg Prod.fst (hshown i hlt))
  rw [getElem?_cells u (by omega), ← hsame, ← hv, getElem?_cells t (by have := t.used_le; omega)]

/-- Cells within two tapes are the same if those are that are not zero. -/
theorem SameMarks.around_eq (hsame : t.SameMarks u) {i : Nat} (ht : i < t.length)
    (hu : i < u.length) : t.around i = u.around i := by
  have htcell := t.getElem?_cells ht
  have hucell := u.getElem?_cells hu
  by_cases hzero : t.around i = 0
  · by_contra hne
    have hmark : u.around i ≠ 0 := fun h => hne (hzero.trans h.symm)
    have hcell := (hsame i _ hmark).2 hucell
    exact hne (Option.some.inj (htcell.symm.trans hcell))
  · have hcell := (hsame i _ hzero).1 htcell
    exact Option.some.inj (hcell.symm.trans hucell)

theorem SameMarks.dump_eq (hsame : t.SameMarks u) (hpointer : t.pointer.val = u.pointer.val) :
    t.dump = u.dump := by
  have hmarked (i : Nat) : t.Marked i ↔ u.Marked i := by
    constructor
    · rintro ⟨v, hv, hne⟩
      exact ⟨v, (hsame i v hne).1 hv, hne⟩
    · rintro ⟨v, hv, hne⟩
      exact ⟨v, (hsame i v hne).2 hv, hne⟩
  have hused : t.used = u.used := by
    obtain ⟨last, hlast, ht⟩ := t.exists_lastMark
    obtain ⟨last', hlast', hu⟩ := u.exists_lastMark
    rw [ht, hu, hpointer, hlast.unique hlast' hmarked]
  have hcount : t.rowCount = u.rowCount := by rw [rowCount, rowCount, hused]
  have hcell (i : Nat) (hi : i < t.used) : t.cellText i = u.cellText i := by
    have hle := t.used_le
    have hle' := u.used_le
    rw [cellText, cellText, hsame.around_eq (by omega) (by omega), hpointer]
  have hrow (start : Nat) : t.row t.used start = u.row u.used start := by
    rw [row, row, ← hused]
    congr 2
    apply List.map_congr_left
    intro i hi
    apply hcell
    obtain ⟨hge, hlt⟩ := List.mem_range'_1.1 hi
    omega
  simp only [Tape.dump_eq, hcount, hrow]

/-- A dump loses nothing. Two tapes have the same dump exactly when they have the same pointer and
the same cells that are not zero. The rows of a dump show the cells in order, up to the last that is
not zero or up to the pointer, whichever is further right, and the one in brackets is the pointer's.
Each row is headed by the number of cells in the rows above it, and has sixteen cells unless it is
the last, which may have fewer. -/
theorem dump_readable (t u : Tape) :
    (t.dump = u.dump ↔ t.pointer.val = u.pointer.val ∧ t.SameMarks u) ∧
    ∃ last rows, t.LastMark last ∧ Dump.rows? t.dump = some rows ∧
      1 + max t.pointer.val last ≤ t.length ∧
      rows.flatMap Dump.Row.cells =
        (t.cells.toList.take (1 + max t.pointer.val last)).zipIdx.map
          (fun (v, i) => (v.toNat, decide (i = t.pointer.val))) ∧
      (∀ i, (∃ n, (rows.flatMap Dump.Row.cells)[i]? = some (n, true)) ↔ i = t.pointer.val) ∧
      ∀ k row, rows[k]? = some row →
        row.start = ((rows.take k).flatMap Dump.Row.cells).length ∧
          1 ≤ row.cells.length ∧ row.cells.length ≤ 16 ∧
          (k + 1 < rows.length → row.cells.length = 16) := by
  constructor
  · constructor
    · intro h
      obtain ⟨hused, hshown⟩ := shown_of_dump_eq h
      have hle := t.used_le
      have hle' := u.used_le
      refine ⟨?_, ?_⟩
      · have hpointer := congrArg Prod.snd (hshown _ t.pointer_lt_used)
        simpa [shown] using hpointer
      · intro i v hne
        constructor
        · exact getElem?_of_shown hshown (by omega) hne
        · exact getElem?_of_shown (fun i hi => (hshown i (by omega)).symm) (by omega) hne
    · rintro ⟨hpointer, hsame⟩
      exact hsame.dump_eq hpointer
  · obtain ⟨last, hlast, hused⟩ := t.exists_lastMark
    have hle := t.used_le
    refine ⟨last, t.shownRows, hlast, t.rows?_dump, by omega, ?_, exists_bracketed_iff, ?_⟩
    · rw [flatMap_shownRows, ← hused, map_shown hle]
    · intro k row hrow
      exact shownRows_layout hrow

end Tape

end TapeLang
