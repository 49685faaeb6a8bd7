import TapeLang.Proofs.RoundTrip
import TapeLang.Shell

/-!
# Lines that begin a block

At the first prompt the shell takes every line that is not a program for the beginning of a block.
A line with a bracket left open is one. But a line in which loops are nested too deeply is one as
well, even when all of its brackets are closed: nothing is reported then, and what follows is taken
for the rest of a program.
-/

namespace TapeLang

namespace Text

variable {text file : String}

/-- A text is refused for the very reason that stack matching gives. -/
theorem parse_eq_error_iff {e : ParseError} :
    Program.parse text file = .error e ↔ (Source.ofText text file).refusal? = some e := by
  refine Source.error_iff_refusal ?_ e
  rw [size_ofText]
  exact Nat.succ_ne_zero _

theorem parse_of_deep (h : ∃ p ∈ (Source.ofText text file).brackets.settled,
    Program.maxNesting < p.level) : Program.parse text file = .error (.tooDeep file) :=
  parse_eq_error_iff.2 (Source.refusal?_eq_tooDeep_iff.2 h)

end Text

namespace Shell

variable {L : Type}

/-- A line at the first prompt that is neither blank nor one of the two words. -/
structure Entry (s : Shell L) (line : String) : Prop where
  primary : s.block.isEmpty = true
  not_blank : Text.strip line.toList ≠ []
  not_exit : Text.strip line.toList ≠ "exit".toList
  not_help : Text.strip line.toList ≠ "help".toList

/-- The next prompt is that of an open block. -/
def Turn.Continues (r : Turn L) : Prop := ∃ s, r = .stay s ∧ s.block.isEmpty = false

variable [Listener L] {s : Shell L} {line text : String} {fuel : Nat}

theorem Entry.read_eq (h : s.Entry line) (fuel : Nat) :
    s.read fuel line = s.enter fuel line fun _ => { s with block := #[line] } := by
  have hblank : (Text.strip line.toList).isEmpty = false := by
    simpa using h.not_blank
  rw [read, if_pos h.primary, if_neg h.not_exit, if_neg h.not_help, hblank,
    if_neg Bool.false_ne_true]

end Shell

/-- A program that is run is not refused. -/
theorem Interp.runProgram_ne_unparsed {L : Type} [Listener L] (fuel : Nat) (s t : Interp L)
    (p : Program) (tape : Tape) (e : ParseError) : s.runProgram fuel p tape ≠ .unparsed e t := by
  intro he
  rw [runProgram] at he
  cases hbegin : s.begin p tape with
  | error h =>
    rw [hbegin] at he
    cases he
  | ok c =>
    simp only [hbegin] at he
    cases hadvance : c.advance fuel with
    | running | halted =>
      rw [hadvance] at he
      cases he
    | finished u =>
      simp only [hadvance, conclude] at he
      cases hended : u.announce .ended <;> rw [hended] at he <;> cases he

/-- What is a program is not refused by its run. -/
theorem Interp.run_ne_unparsed {L : Type} [Listener L] {s : Interp L} {p : Program}
    (h : s.parse = .ok p) (fuel : Nat) (tape : Tape) (e : ParseError) (t : Interp L) :
    s.run fuel tape ≠ .unparsed e t := by
  rw [run, h]
  exact runProgram_ne_unparsed _ _ _ _ _ _

namespace Shell

variable {L : Type} [Listener L] {s : Shell L} {line text : String} {fuel : Nat}

/-- What is no program is dealt with as asked for. -/
theorem enter_of_error {e : ParseError} (h : Program.parse text file = .error e)
    (refused : ParseError → Shell L) : s.enter fuel text refused = .stay (refused e) := by
  have hparse : Interp.parse { source := text, file, hooks := s.hooks } = .error e := h
  simp only [enter, Interp.run, hparse]

/-- What is a program leaves the block alone. -/
theorem enter_of_ok {p : Program} (h : Program.parse text file = .ok p)
    {refused : ParseError → Shell L} {s' : Shell L} (hs : s.enter fuel text refused = .stay s') :
    s'.block = s.block := by
  have hparse : Interp.parse { source := text, file, hooks := s.hooks } = .ok p := h
  rw [enter] at hs
  split at hs
  · next e i hrun => exact absurd hrun (Interp.run_ne_unparsed hparse _ _ _ _)
  · cases hs
    rfl
  · split at hs
    · cases hs
    · cases hs
      rfl
    · cases hs
    · cases hs
    · cases hs
  · cases hs

/-- The lines that begin a block are those that are no programs. -/
theorem Entry.continues_iff (h : s.Entry line) (fuel : Nat) :
    (s.read fuel line).Continues ↔ ∃ e, Program.parse line file = .error e := by
  rw [h.read_eq]
  constructor
  · rintro ⟨s', hs, hblock⟩
    cases hp : Program.parse line file with
    | error e => exact ⟨e, rfl⟩
    | ok p =>
      rw [enter_of_ok hp hs, h.primary] at hblock
      cases hblock
  · rintro ⟨e, he⟩
    exact ⟨_, enter_of_error he _, rfl⟩

/-- A line that is no program is put into the block, and that is all. -/
theorem Entry.read_of_error (h : s.Entry line) {e : ParseError}
    (he : Program.parse line file = .error e) (fuel : Nat) :
    s.read fuel line = .stay { s with block := #[line] } := by
  rw [h.read_eq, enter_of_error he]

/-- The shell opens a block for every line that is not a program. Where no loop lies too deep, these
are the lines with a bracket left open, on which reading fails. But a line in which a loop before
every bracket left open lies too deep opens one as well, and the refusal is not reported. -/
theorem read_continues {s : Shell} {line : String} (h : s.Entry line) (fuel : Nat) :
    let t := Source.ofText line file
    ((s.read fuel line).Continues ↔ ∃ e, Program.parse line file = .error e) ∧
    ((s.read fuel line).Continues → s.read fuel line = .stay { s with block := #[line] }) ∧
    ((∀ p ∈ t.brackets.settled, p.level ≤ Program.maxNesting) →
      ((s.read fuel line).Continues ↔ ∃ u k, t.brackets.leftmost? = some u ∧
        t.tokens.pop[u]? = some k ∧
        Program.parse line file = .error (.notClosed file k.line k.column))) ∧
    ((∃ p ∈ t.brackets.settled, Program.maxNesting < p.level) →
      Program.parse line file = .error (.tooDeep file) ∧ (s.read fuel line).Continues) := by
  intro t
  have hiff := h.continues_iff fuel
  refine ⟨hiff, ?_, fun hlow => ⟨?_, ?_⟩, fun hdeep => ?_⟩
  · intro hc
    obtain ⟨e, he⟩ := hiff.1 hc
    exact h.read_of_error he fuel
  · intro hc
    obtain ⟨e, he⟩ := hiff.1 hc
    have hrefusal := Text.parse_eq_error_iff.1 he
    rcases Source.eq_of_refusal?_eq_some hrefusal with rfl | ⟨u, k, hu, hk, rfl⟩
    · obtain ⟨p, hp, hlt⟩ := Source.refusal?_eq_tooDeep_iff.1 hrefusal
      exact absurd (hlow p hp) (Nat.not_le_of_lt hlt)
    · exact ⟨u, k, hu, hk, he⟩
  · rintro ⟨u, k, -, -, he⟩
    exact hiff.2 ⟨_, he⟩
  · have he := Text.parse_of_deep hdeep
    exact ⟨he, hiff.2 ⟨_, he⟩⟩

/-- The line `+[` opens a block, and `+]` does not. -/
theorem read_continues_unclosed :
    let s : Shell := {}
    s.Entry "+[" ∧ (s.read 9 "+[").Continues ∧ s.Entry "+]" ∧ ¬(s.read 9 "+]").Continues := by
  intro s
  have hopen : s.Entry "+[" := ⟨by decide, by decide, by decide, by decide⟩
  have hclosed : s.Entry "+]" := ⟨by decide, by decide, by decide, by decide⟩
  have htokens : Source.ofText "+[" file =
      ⟨#[⟨.op .increment, 1, 1⟩, ⟨.opening, 1, 2⟩, ⟨.finish, 1, 3⟩], file, #["+["]⟩ := rfl
  have htokens' : Source.ofText "+]" file =
      ⟨#[⟨.op .increment, 1, 1⟩, ⟨.closing, 1, 2⟩, ⟨.finish, 1, 3⟩], file, #["+]"]⟩ := rfl
  have herror : Program.parse "+[" file = .error (.notClosed file 1 2) := by
    rw [Text.parse_eq_error_iff, htokens]
    refine Source.refusal?_of_leftmost? (u := 1) (k := ⟨.opening, 1, 2⟩) ?_ ?_ rfl
    · decide
    · decide
  obtain ⟨-, -, hiff, -⟩ := read_continues hopen 9
  obtain ⟨-, -, hiff', -⟩ := read_continues hclosed 9
  rw [htokens] at hiff
  rw [htokens'] at hiff'
  refine ⟨hopen, (hiff (by decide)).2 ⟨1, _, by decide, rfl, herror⟩, hclosed, ?_⟩
  intro hc
  obtain ⟨u, k, hu, -⟩ := (hiff' (by decide)).1 hc
  have hnone : Brackets.leftmost? (Source.brackets ⟨#[⟨.op .increment, 1, 1⟩, ⟨.closing, 1, 2⟩,
      ⟨.finish, 1, 3⟩], file, #["+]"]⟩) = none := by decide
  cases hnone.symm.trans hu

end Shell

/-! ## Closed loops that lie too deep -/

/-- Loops with nothing but each other in them. -/
def Node.nest : Nat → List Node
  | 0 => []
  | k + 1 => [.loop ⟨"", 0, 0, ""⟩ (nest k)]

theorem Node.written_nest (k : Nat) :
    written (nest k) = List.replicate k '[' ++ List.replicate k ']' := by
  induction k with
  | zero => simp [nest, written]
  | succ k ih =>
    rw [nest, written, written, ih, List.replicate_succ, List.replicate_succ', List.cons_append,
      List.cons_append, List.append_assoc]

theorem Node.depth_nest (k : Nat) : depth (nest k) = k := by
  induction k with
  | zero => simp [nest, depth]
  | succ k ih => simp [nest, depth, ih]

/-- When every bracket of a text is closed, so is every bracket of its tokens, and the pairs are as
deep. -/
theorem Text.settled_ofText (text file : String)
    (ho : (brackets text.toList).opened = []) :
    (Source.ofText text file).brackets.leftmost? = none ∧
      ∀ k, (∀ p ∈ (Source.ofText text file).brackets.settled, p.level ≤ k) ↔
        ∀ p ∈ (brackets text.toList).pairs, p.level ≤ k := by
  have hb := brackets_ofText text file
  rw [← hb] at ho ⊢
  have hopen : (Source.ofText text file).brackets.opened = [] := List.map_eq_nil_iff.1 ho
  refine ⟨by rw [Brackets.leftmost?, hopen]; rfl, fun k => ?_⟩
  simp only [Brackets.settled, hopen, List.all_nil, List.filter_true, Brackets.map,
    List.forall_mem_map]

/-- There is nothing to strip when the first and the last character are not blank. -/
theorem Text.strip_eq_self {c d : Char} {as bs : List Char} (h : c :: as = bs ++ [d])
    (hc : isBlank c = false) (hd : isBlank d = false) : strip (c :: as) = c :: as := by
  rw [strip, List.dropWhile_cons_of_neg (by simp [hc]), h, List.reverse_append,
    List.reverse_singleton, List.singleton_append, List.dropWhile_cons_of_neg (by simp [hd])]
  simp

namespace Shell

/-- Nested loops are an entry like any other. -/
theorem entry_nest (k : Nat) :
    Entry ({} : Shell) (String.ofList (Node.written (Node.nest (k + 1)))) := by
  have hlist : (String.ofList (Node.written (Node.nest (k + 1)))).toList =
      '[' :: (List.replicate k '[' ++ List.replicate (k + 1) ']') := by
    rw [String.toList_ofList, Node.written_nest, List.replicate_succ, List.cons_append]
  have hlast : '[' :: (List.replicate k '[' ++ List.replicate (k + 1) ']') =
      ('[' :: (List.replicate k '[' ++ List.replicate k ']')) ++ [']'] := by
    rw [List.replicate_succ', List.cons_append, List.append_assoc]
  have hstrip := Text.strip_eq_self hlast (by decide) (by decide)
  constructor
  · rfl
  · rw [hlist, hstrip]
    exact List.cons_ne_nil _ _
  · rw [hlist, hstrip]
    exact fun he => absurd (List.cons.inj he).1 (by decide)
  · rw [hlist, hstrip]
    exact fun he => absurd (List.cons.inj he).1 (by decide)

/-- All brackets of this line are closed and its loops lie too deep. It opens a block, and the
refusal is not reported. -/
theorem read_continues_closed :
    let line := String.ofList (List.replicate 700 '[' ++ List.replicate 700 ']')
    let s : Shell := {}
    s.Entry line ∧ (Source.ofText line file).brackets.leftmost? = none ∧
      Program.parse line file = .error (.tooDeep file) ∧
      ∀ fuel, s.read fuel line = .stay { s with block := #[line] } := by
  intro line s
  have hline : line = String.ofList (Node.written (Node.nest 700)) := by rw [Node.written_nest]
  obtain ⟨ho, hl⟩ := Node.brackets_written (Node.nest 700)
  have hentry : s.Entry line := hline ▸ entry_nest 699
  obtain ⟨hleft, hlevel⟩ := Text.settled_ofText line file
    (by rw [hline, String.toList_ofList]; exact ho)
  have hdeep : ∃ p ∈ (Source.ofText line file).brackets.settled, Program.maxNesting < p.level := by
    by_contra hno
    have hall : ∀ p ∈ (Source.ofText line file).brackets.settled, p.level ≤ Program.maxNesting :=
      fun p hp => Nat.le_of_not_lt fun hlt => hno ⟨p, hp, hlt⟩
    rw [hlevel, hline, String.toList_ofList, hl, Node.depth_nest] at hall
    exact absurd hall (by decide)
  have he := Text.parse_of_deep hdeep
  exact ⟨hentry, hleft, he, hentry.read_of_error he⟩

end Shell

end TapeLang
