import Mathlib.Tactic.Ring
import TapeLang.Proofs.Loopless
import TapeLang.Tape.View

/-!
# The window and the pointer

The window of a tape shows what the pointer would come to. Its middle entry is the current cell, and
the entries to the right and to the left of it are what moves to the right and to the left lead to,
however often these go around the ring. The text of a snapshot can be read back: its parts are the
values of the window, and the one in brackets is the current cell.
-/

namespace TapeLang

/-! ## Numbers in texts -/

namespace Text

/-- The number that digits make up. -/
def number? (text : List Char) : Option Nat :=
  if text ≠ [] ∧ text.all Char.isDigit = true then some (Nat.ofDigitChars 10 text 0) else none

/-- The number that a text shows, and whether it is in brackets. -/
def bracketed? : List Char → Option (Nat × Bool)
  | '[' :: text =>
    if text.getLast? = some ']' then (number? text.dropLast).map fun n => (n, true) else none
  | text => (number? text).map fun n => (n, false)

/-- What is no digit does not occur in a number. -/
theorem not_mem_toDigits {c : Char} (hc : c.isDigit = false) (n : Nat) :
    c ∉ Nat.toDigits 10 n := by
  intro h
  have hdigit := Nat.isDigit_of_mem_toDigits (by decide) (by decide) h
  rw [hc] at hdigit
  cases hdigit

/-- Digits are read as the number, whether or not zeros stand in front of them. -/
theorem number?_zeros (k n : Nat) :
    number? (List.replicate k '0' ++ Nat.toDigits 10 n) = some n := by
  have hne : List.replicate k '0' ++ Nat.toDigits 10 n ≠ [] := by simp [Nat.toDigits_ne_nil]
  have hdigits : (List.replicate k '0' ++ Nat.toDigits 10 n).all Char.isDigit = true := by
    rw [List.all_eq_true]
    intro c hc
    rcases List.mem_append.1 hc with hc | hc
    · rw [List.eq_of_mem_replicate hc]
      decide
    · exact Nat.isDigit_of_mem_toDigits (by decide) (by decide) hc
  unfold number?
  rw [if_pos ⟨hne, hdigits⟩, Nat.ofDigitChars_append, Nat.ofDigitChars_replicate_zero,
    Nat.mul_zero, Nat.ofDigitChars_ten_toDigits]

theorem number?_toDigits (n : Nat) : number? (Nat.toDigits 10 n) = some n :=
  number?_zeros 0 n

theorem bracketed?_toDigits (n : Nat) : bracketed? (Nat.toDigits 10 n) = some (n, false) := by
  unfold bracketed?
  split
  · next text htext =>
    -- a number does not begin with a bracket
    exact absurd (by simp [htext]) (not_mem_toDigits (c := '[') (by decide) n)
  · rw [number?_toDigits, Option.map_some]

theorem bracketed?_brackets (n : Nat) :
    bracketed? ('[' :: (Nat.toDigits 10 n ++ [']'])) = some (n, true) := by
  unfold bracketed?
  simp only [List.getLast?_concat, if_true, List.dropLast_concat, number?_toDigits,
    Option.map_some]

end Text

namespace Tape

variable (t : Tape)

/-- Where moves lead. -/
theorem current_move (k : Int) : (t.move k).current = t.around (t.pointer.val + k) := rfl

/-- Moves in a row are one long move. -/
theorem after_replicate {o : Op} {j : Int} (h : ∀ u : Tape, o.onTape u = u.move j) (k : Nat) :
    t.after (List.replicate k o) = t.move (k * j) := by
  induction k generalizing t with
  | zero => simp [move_zero]
  | succ k ih =>
    rw [List.replicate_succ, after_cons, h, ih, move_move]
    congr 1
    push_cast
    ring

theorem length_window (r : Nat) : (t.window r).length = 2 * r + 1 := by
  simp only [window, List.length_map, List.length_range]
  omega

theorem getElem?_window {r i : Nat} (hi : i < 2 * r + 1) :
    (t.window r)[i]? = some (t.around (t.pointer.val + (i - r))) := by
  have hlt : i < (2 * (r : Int) + 1).toNat := by omega
  unfold window
  rw [List.getElem?_map, List.getElem?_range hlt, Option.map_some]
  congr 2
  omega

/-- The middle of the window is the current cell. -/
theorem getElem?_window_middle (r : Nat) : (t.window r)[r]? = some t.current := by
  rw [getElem?_window t (by omega), Int.sub_self, Int.add_zero, around_pointer]

/-- The text of the entry of the window at an index, where `r` is the middle. -/
def entryText (r : Nat) (v : UInt8) (i : Nat) : List Char :=
  if i = r then '[' :: (Nat.toDigits 10 v.toNat ++ [']']) else Nat.toDigits 10 v.toNat

theorem not_mem_entryText (r : Nat) (v : UInt8) (i : Nat) : ' ' ∉ entryText r v i := by
  have hdigits := Text.not_mem_toDigits (c := ' ') (by decide) v.toNat
  unfold entryText
  split <;> simp [hdigits]

theorem bracketed?_entryText (r : Nat) (v : UInt8) (i : Nat) :
    Text.bracketed? (entryText r v i) = some (v.toNat, decide (i = r)) := by
  unfold entryText
  by_cases h : i = r
  · rw [if_pos h, Text.bracketed?_brackets, decide_eq_true h]
  · rw [if_neg h, Text.bracketed?_toDigits, decide_eq_false h]

theorem toList_entry (r : Nat) (v : UInt8) (i : Nat) :
    (if (i : Int) = r then s!"[{v.toNat}]" else toString v.toNat).toList = entryText r v i := by
  have hbrackets : s!"[{v.toNat}]" = "[" ++ toString v.toNat ++ "]" := rfl
  simp only [entryText, Int.ofNat_inj, hbrackets]
  split <;> simp

/-- The text of a snapshot splits into the texts of the entries. -/
theorem splitOn_snapshot (r : Nat) :
    (t.snapshot r).window.toList.splitOn ' ' =
      (t.window r).zipIdx.map fun (v, i) => entryText r v i := by
  have hlength := t.length_window r
  unfold snapshot
  simp only [String.toList_intercalate, List.map_map, Function.comp_def, toList_entry]
  apply List.splitOn_intercalate
  · intro text htext
    obtain ⟨⟨v, i⟩, -, rfl⟩ := List.mem_map.1 htext
    exact not_mem_entryText r v i
  · intro h
    simp [← List.length_eq_zero_iff, hlength] at h

end Tape

/-! ## Execution -/

namespace Interp

variable {L : Type} [Listener L] {s : Interp L} {t : Tape}

/-- As many moves in a row as there are places lead to a cell that far away. -/
theorem exists_executes_moves (hs : s.hooks = #[]) (ht : s.work = some t) {o : Op} {j : Int}
    (hin : o ≠ .input) (hout : o ≠ .output) (hmove : ∀ u : Tape, o.onTape u = u.move j)
    (places : List (Option Location)) :
    ∃ u, s.Executes (places.map fun l => .op o l) (.finished u) ∧
      u.cell = t.around (t.pointer.val + places.length * j) := by
  have hrow : Node.row (places.map fun l => (o, l)) = places.map fun l => .op o l := by
    simp [Node.row]
  have hops : (places.map fun l => (o, l)).map Prod.fst = List.replicate places.length o := by
    simp
  have hreads : .input ∉ List.replicate places.length o := by
    intro h
    exact hin (List.eq_of_mem_replicate h).symm
  have hwrites : (List.replicate places.length o).count .output = 0 := by
    rw [List.count_replicate]
    simp [hout]
  obtain ⟨hfinishes, hcarried⟩ := executes_row hs ht (hops ▸ hreads)
  obtain ⟨u, hu⟩ := hfinishes (hops ▸ hwrites ▸ s.sink.takes_zero)
  have hwork := (hcarried u hu).work
  rw [hops, Tape.after_replicate t hmove] at hwork
  rw [hrow] at hu
  refine ⟨u, hu, ?_⟩
  rw [cell_of_work hwork, Tape.current_move]

/-- The window of radius `r` has `2 * r + 1` entries. Those up to `r` places to the right and to the
left of the middle are the cells that as many moves in that direction lead to. The text of a
snapshot splits at the spaces into their values; the middle one alone is in brackets, and it is the
current cell. -/
theorem window_shows_moves (s : Interp L) (hs : s.hooks = #[]) {t : Tape} (ht : s.work = some t)
    (r : Nat) :
    (t.window r).length = 2 * r + 1 ∧
      (∀ k ≤ r, ∀ places : List (Option Location), places.length = k →
        (∃ u, s.Executes (places.map fun l => .op .right l) (.finished u) ∧
          (t.window r)[r + k]? = some u.cell) ∧
        ∃ u, s.Executes (places.map fun l => .op .left l) (.finished u) ∧
          (t.window r)[r - k]? = some u.cell) ∧
      ((t.snapshot r).window.toList.splitOn ' ').map Text.bracketed? =
        (t.window r).zipIdx.map (fun (v, i) => some (v.toNat, decide (i = r))) ∧
      ((t.snapshot r).window.toList.splitOn ' ')[r]? =
        some ('[' :: ((t.snapshot r).cell.toList ++ [']'])) := by
  refine ⟨t.length_window r, ?_, ?_, ?_⟩
  · rintro k hk places rfl
    constructor
    · obtain ⟨u, hu, hcell⟩ := exists_executes_moves hs ht (o := .right) (by simp) (by simp)
        Tape.right_eq places
      refine ⟨u, hu, ?_⟩
      rw [Tape.getElem?_window t (by omega), hcell]
      congr 2
      omega
    · obtain ⟨u, hu, hcell⟩ := exists_executes_moves hs ht (o := .left) (by simp) (by simp)
        Tape.left_eq places
      refine ⟨u, hu, ?_⟩
      rw [Tape.getElem?_window t (by omega), hcell]
      congr 2
      omega
  · rw [Tape.splitOn_snapshot, List.map_map]
    apply List.map_congr_left
    rintro ⟨v, i⟩ -
    exact Tape.bracketed?_entryText r v i
  · have hmiddle := t.getElem?_window_middle r
    have hcell : (t.snapshot r).cell.toList = Nat.toDigits 10 t.current.toNat := by
      simp [Tape.snapshot]
    rw [Tape.splitOn_snapshot, List.getElem?_map, List.getElem?_zipIdx, hmiddle, hcell]
    simp [Tape.entryText]

/-- A window of radius three goes three times around a tape of two cells. -/
theorem window_shows_moves_around :
    let t : Tape := ⟨2, #v[7, 255], 1⟩
    let s : Interp Script := { tape := some t }
    s.hooks = #[] ∧ s.work = some t ∧ t.window 3 = [7, 255, 7, 255, 7, 255, 7] ∧
      (∃ u, s.Executes [.op .right none, .op .right none] (.finished u) ∧ u.cell = 255) ∧
      (∃ u, s.Executes [.op .left none, .op .left none, .op .left none] (.finished u) ∧
        u.cell = 7) ∧
      ((t.snapshot 3).window.toList.splitOn ' ').map Text.bracketed? =
        [some (7, false), some (255, false), some (7, false), some (255, true), some (7, false),
          some (255, false), some (7, false)] := by
  intro t s
  have hwindow : t.window 3 = [7, 255, 7, 255, 7, 255, 7] := by decide
  obtain ⟨-, hmoves, htexts, -⟩ := window_shows_moves s rfl (t := t) rfl 3
  have hwindow' : t.window (3 : Nat) = [7, 255, 7, 255, 7, 255, 7] := hwindow
  obtain ⟨⟨u, hu, hright⟩, -⟩ := hmoves 2 (by decide) [none, none] rfl
  obtain ⟨-, v, hv, hleft⟩ := hmoves 3 (by decide) [none, none, none] rfl
  rw [hwindow'] at hright hleft htexts
  exact ⟨rfl, rfl, hwindow, ⟨u, hu, (Option.some.inj hright).symm⟩,
    ⟨v, hv, (Option.some.inj hleft).symm⟩, htexts⟩

end Interp

end TapeLang
