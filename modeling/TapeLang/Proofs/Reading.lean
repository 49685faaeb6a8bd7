import TapeLang.Proofs.Spelling

/-!
# When reading succeeds, and how it fails

Reading looks ahead for each closing bracket and never keeps a stack. Nevertheless what it makes of
a token list is settled by matching the brackets before the last token with a stack: the leftmost
bracket left open is blamed, unless a loop that lies before it is nested too deeply. What follows
that bracket plays no part, and neither do the operations.
-/

namespace TapeLang

open Source

namespace Program

variable {t : Source} {stop depth i : Nat} {done : List Node}

/-! ## One token at a time -/

theorem readSpan_stop (h : stop ≤ i) : readSpan t stop depth i done = .ok (done.reverse, i) := by
  rw [readSpan, if_neg (by omega)]

theorem readSpan_op {o : Op} (hi : i < stop) (h : t.kind i = .op o) :
    readSpan t stop depth i done =
      readSpan t stop depth (i + 1) (.op o (some (t.place i)) :: done) := by
  rw [readSpan, if_pos hi]
  simp only [h]

theorem readSpan_pass (hi : i < stop) (ho : t.kind i ≠ .opening) (hop : ∀ o, t.kind i ≠ .op o) :
    readSpan t stop depth i done = readSpan t stop depth (i + 1) done := by
  rw [readSpan, if_pos hi]
  split
  · next o h => exact absurd h (hop o)
  · next h => exact absurd h ho
  · rfl

theorem readSpan_unclosed (hi : i < stop) (h : t.kind i = .opening)
    (hc : t.closer? stop 1 (i + 1) = none) :
    readSpan t stop depth i done =
      .error (.notClosed t.file (t.place i).line (t.place i).column) := by
  rw [readSpan, if_pos hi]
  simp only [h]
  split
  · rfl
  · next hp => rw [hc] at hp; cases hp

/-- A loop is refused for its depth, or for its body, or reading goes on behind it. -/
theorem readSpan_loop {p : Nat} (hi : i < stop) (h : t.kind i = .opening)
    (hc : t.closer? stop 1 (i + 1) = some p) :
    readSpan t stop depth i done =
      if maxNesting ≤ depth then .error (.tooDeep t.file)
      else match readSpan t p (depth + 1) (i + 1) [] with
        | .error e => .error e
        | .ok (body, _) => readSpan t stop depth (p + 1) (.loop (t.place i) body :: done) := by
  rw [readSpan, if_pos hi]
  simp only [h]
  split
  · next hp => rw [hc] at hp; cases hp
  · next q hq =>
    obtain rfl : p = q := Option.some.inj (hc.symm.trans hq)
    rfl

/-- Reading over what spells a list adds the list, unless a loop in it lies too deep. -/
theorem readSpan_of_spells {top : Bool} {j : Nat} {ns : List Node} (h : Spells t top i j ns)
    (hj : j ≤ stop) :
    readSpan t stop depth i done =
      if depth + Node.depth ns ≤ max maxNesting depth
        then readSpan t stop depth j (ns.reverse ++ done)
      else .error (.tooDeep t.file) := by
  induction h generalizing stop depth done with
  | nil =>
    rw [Node.depth, if_pos (by omega)]
    rfl
  | op h rest ih =>
    have := rest.le
    rw [readSpan_op (by omega) h, ih hj, Node.depth, List.reverse_cons, List.append_assoc]
    rfl
  | pass h rest ih =>
    have := rest.le
    rw [readSpan_pass (by omega) (by rcases h with h | h <;> simp [h])
      (by rcases h with h | h <;> simp [h])]
    exact ih hj
  | stray h rest ih =>
    have := rest.le
    rw [readSpan_pass (by omega) (by simp [h]) (by simp [h])]
    exact ih hj
  | @loop top i p j body ns ho inside hc rest ihBody ihRest =>
    have hp := inside.le
    have hr := rest.le
    have hclose : t.closer? stop 1 (i + 1) = some p := by
      rw [inside.closer?_eq (by omega), closer?_last (by omega) hc]
    rw [readSpan_loop (by omega) ho hclose, Node.depth]
    by_cases hmax : maxNesting ≤ depth
    · rw [if_pos hmax, if_neg (by omega)]
    · rw [if_neg hmax, ihBody (Nat.le_refl p)]
      by_cases hbody : depth + 1 + Node.depth body ≤ max maxNesting (depth + 1)
      · rw [if_pos hbody, readSpan_stop (Nat.le_refl p), List.append_nil, List.reverse_reverse]
        simp only [ihRest hj, List.reverse_cons, List.append_assoc, List.cons_append,
          List.nil_append]
        by_cases hns : depth + Node.depth ns ≤ max maxNesting depth
        · rw [if_pos hns, if_pos (by omega)]
        · rw [if_neg hns, if_neg (by omega)]
      · rw [if_neg hbody, if_neg (by omega)]

/-- A span that spells a list is read to its end. -/
theorem readSpan_to_end {top : Bool} {ns : List Node} (h : Spells t top i stop ns) :
    readSpan t stop depth i done =
      if depth + Node.depth ns ≤ max maxNesting depth then .ok (done.reverse ++ ns, stop)
      else .error (.tooDeep t.file) := by
  rw [readSpan_of_spells h (Nat.le_refl stop), readSpan_stop (Nat.le_refl stop),
    List.reverse_append, List.reverse_reverse]

/-! ## Whole token lists -/

variable {u : Nat} {ns : List Node}

theorem ofSource_of_spells (ht : t.tokens.size ≠ 0)
    (h : Spells t true 0 (t.tokens.size - 1) ns) :
    ofSource t = if Node.depth ns ≤ maxNesting then .ok ⟨ns, t.place (t.tokens.size - 1)⟩
      else .error (.tooDeep t.file) := by
  rw [ofSource, if_neg ht]
  simp only [readSpan_to_end h, Nat.zero_add, Nat.max_zero, List.reverse_nil, List.nil_append]
  by_cases hd : Node.depth ns ≤ maxNesting
  · rw [if_pos hd, if_pos hd]
  · rw [if_neg hd, if_neg hd]

theorem ofSource_of_unclosed (ht : t.tokens.size ≠ 0) (h : Spells t true 0 u ns)
    (hu : u < t.tokens.size - 1) (ho : t.kind u = .opening)
    (hc : t.closer? (t.tokens.size - 1) 1 (u + 1) = none) :
    ofSource t = .error (if Node.depth ns ≤ maxNesting
      then .notClosed t.file (t.place u).line (t.place u).column else .tooDeep t.file) := by
  rw [ofSource, if_neg ht]
  simp only [readSpan_of_spells h (Nat.le_of_lt hu), Nat.zero_add, Nat.max_zero,
    readSpan_unclosed hu ho hc]
  by_cases hd : Node.depth ns ≤ maxNesting
  · rw [if_pos hd, if_pos hd]
  · rw [if_neg hd, if_neg hd]

/-- Reading succeeds exactly with the statements that the tokens before the last one spell. -/
theorem ofSource_eq_ok_iff {p : Program} :
    ofSource t = .ok p ↔ t.tokens.size ≠ 0 ∧ Spells t true 0 (t.tokens.size - 1) p.statements ∧
      Node.depth p.statements ≤ maxNesting ∧ p.finish = t.place (t.tokens.size - 1) := by
  constructor
  · intro h
    have ht : t.tokens.size ≠ 0 := by
      intro ht
      rw [ofSource, if_pos ht] at h
      cases h
    rcases Spells.exists_prefix t (Nat.zero_le (t.tokens.size - 1)) with
      ⟨ns, hns⟩ | ⟨u, ns, hns, hu, ho, hc⟩
    · rw [ofSource_of_spells ht hns] at h
      split at h
      · next hd =>
        cases h
        exact ⟨ht, hns, hd, rfl⟩
      · cases h
    · rw [ofSource_of_unclosed ht hns hu ho hc] at h
      cases h
  · rintro ⟨ht, hns, hd, hf⟩
    rw [ofSource_of_spells ht hns, if_pos hd, ← hf]

/-- A text is a program of the statements that its tokens before the last one spell. -/
theorem exists_parse_of_spells {text file : String} {n : Nat} {ns : List Node}
    (hsize : (ofText text file).tokens.size = n + 1)
    (hns : Spells (ofText text file) true 0 n ns) (hd : Node.depth ns ≤ maxNesting) :
    ∃ finish, parse text file = .ok ⟨ns, finish⟩ := by
  refine ⟨_, ofSource_eq_ok_iff.2 ⟨?_, ?_, hd, rfl⟩⟩
  · rw [hsize]
    exact Nat.succ_ne_zero n
  · rw [hsize, Nat.add_sub_cancel]
    exact hns

end Program

namespace Source

variable {t : Source} {i u : Nat} {ns : List Node}

/-! ## The brackets of a token list -/

/-- The brackets before the last token, matched with a stack. -/
def brackets (t : Source) : Brackets Nat :=
  Brackets.readAll t.kind {} (List.range (t.tokens.size - 1))

theorem range_eq_span (n : Nat) : List.range n = span 0 n := by
  rw [span, Nat.sub_zero, List.range_eq_range']

/-- A bracket whose closing bracket is not found stays on the stack. -/
theorem opened_of_unclosed {stop : Nat} (inner outer : List Nat) (ps : List (Pair Nat))
    (h : t.closer? stop (inner.length + 1) i = none) :
    ∃ ys, (Brackets.readAll t.kind ⟨inner ++ u :: outer, ps⟩ (span i stop)).opened =
      ys ++ u :: outer := by
  induction hd : stop - i using Nat.strongRecOn generalizing i inner ps with
  | _ d ih =>
    by_cases hi : i < stop
    · rw [span_cons hi, Brackets.readAll_cons]
      by_cases ho : t.kind i = .opening
      · rw [closer?_opening hi ho] at h
        rw [Brackets.read_opening ho]
        exact ih _ (by omega) (i :: inner) ps h rfl
      · by_cases hc : t.kind i = .closing
        · cases inner with
          | nil =>
            rw [List.length_nil, Nat.zero_add, closer?_last hi hc] at h
            cases h
          | cons b inner =>
            rw [List.length_cons, closer?_closing hi hc] at h
            rw [List.cons_append, Brackets.read_closing hc]
            exact ih _ (by omega) inner _ h rfl
        · rw [closer?_pass hi ho hc] at h
          rw [Brackets.read_pass ho hc]
          exact ih _ (by omega) inner ps h rfl
    · rw [span, Nat.sub_eq_zero_of_le (by omega)]
      exact ⟨inner, rfl⟩

/-- When the tokens spell a list as a whole, every bracket finds its partner, and the deepest pair
is as deep as the list. -/
theorem brackets_of_spells (h : Spells t true 0 (t.tokens.size - 1) ns) :
    t.brackets.opened = [] ∧
      ∀ k, (∀ p ∈ t.brackets.settled, p.level ≤ k) ↔ Node.depth ns ≤ k := by
  obtain ⟨ps, he, -, hlevel⟩ := h.nested.readAll {} (fun _ => rfl)
  simp only [List.append_nil, List.length_nil, Nat.zero_add] at he hlevel
  have hb : t.brackets = ⟨[], ps⟩ := by rw [brackets, range_eq_span, he]
  refine ⟨by rw [hb], fun k => ?_⟩
  simp only [hb, Brackets.settled, List.all_nil, List.filter_true]
  exact hlevel k

/-- When the tokens spell a list up to an unclosed loop, that loop has the leftmost bracket left
open, and the deepest pair before it is as deep as the list. -/
theorem brackets_of_unclosed (h : Spells t true 0 u ns) (hu : u < t.tokens.size - 1)
    (ho : t.kind u = .opening) (hc : t.closer? (t.tokens.size - 1) 1 (u + 1) = none) :
    t.brackets.leftmost? = some u ∧
      ∀ k, (∀ p ∈ t.brackets.settled, p.level ≤ k) ↔ Node.depth ns ≤ k := by
  obtain ⟨ps, he, hmem, hlevel⟩ := h.nested.readAll {} (fun _ => rfl)
  simp only [List.append_nil, List.length_nil, Nat.zero_add, mem_span] at he hmem hlevel
  have hb : t.brackets = Brackets.readAll t.kind ⟨[u], ps⟩ (span (u + 1) (t.tokens.size - 1)) := by
    rw [brackets, range_eq_span, span_append (Nat.zero_le u) (by omega), Brackets.readAll_append,
      he, span_cons hu, Brackets.readAll_cons, Brackets.read_opening ho]
  obtain ⟨ys, hys⟩ := opened_of_unclosed (u := u) [] [] ps hc
  obtain ⟨hopen, hpair⟩ := Brackets.mem_readAll t.kind ⟨[u], ps⟩ (span (u + 1) (t.tokens.size - 1))
  have hsub := Brackets.pairs_subset_readAll t.kind ⟨[u], ps⟩ (span (u + 1) (t.tokens.size - 1))
  rw [List.nil_append, ← hb] at hys
  rw [← hb] at hopen hpair hsub
  have hself : u ∈ t.brackets.opened := by
    rw [hys]
    exact List.mem_append_right _ List.mem_cons_self
  have hleast : ∀ x ∈ t.brackets.opened, u ≤ x := by
    intro x hx
    rcases hopen x hx with hx | hx
    · exact Nat.le_of_eq (List.mem_singleton.1 hx).symm
    · exact Nat.le_of_succ_le (mem_span.1 hx).1
  have hsettled : ∀ p, p ∈ t.brackets.settled ↔ p ∈ ps := by
    intro p
    rw [Brackets.settled, List.mem_filter, List.all_eq_true]
    constructor
    · rintro ⟨hp, hlt⟩
      have hpu : p.closing < u := of_decide_eq_true (hlt u hself)
      rcases hpair p hp with hp | hp
      · exact hp
      · have := (mem_span.1 hp).1
        omega
    · intro hp
      have hpu := (hmem p hp).2
      refine ⟨hsub hp, fun x hx => decide_eq_true ?_⟩
      exact Nat.lt_of_lt_of_le hpu (hleast x hx)
  refine ⟨List.min?_eq_some_iff.2 ⟨hself, hleast⟩, fun k => ?_⟩
  simp only [hsettled]
  exact hlevel k

/-- What stack matching says of a token list: why it is refused, if it is. -/
def refusal? (t : Source) : Option ParseError :=
  if ∃ p ∈ t.brackets.settled, Program.maxNesting < p.level then some (.tooDeep t.file)
  else t.brackets.leftmost?.map fun u => .notClosed t.file (t.place u).line (t.place u).column

/-- Token lists with the same kinds before the last token have the same brackets. -/
theorem brackets_congr {t' : Source}
    (h : t'.tokens.pop.map Token.kind = t.tokens.pop.map Token.kind) :
    t'.brackets = t.brackets := by
  have hsize : t'.tokens.size - 1 = t.tokens.size - 1 := by
    simpa using congrArg Array.size h
  have hkind : ∀ k ∈ List.range (t.tokens.size - 1), t'.kind k = t.kind k := by
    intro k hk
    have hk := List.mem_range.1 hk
    have he := congrArg (fun a => a[k]?) h
    simp only [Array.getElem?_map, Array.getElem?_pop] at he
    rw [if_pos (by omega), if_pos (by omega)] at he
    rw [kind, kind, he]
  rw [brackets, brackets, hsize]
  exact Brackets.readAll_congr hkind {}

/-- Reading refuses a token list for the very reason that stack matching gives. -/
theorem ofSource_refusal (t : Source) (ht : t.tokens.size ≠ 0) :
    match t.refusal? with
    | none => ∃ p, Program.ofSource t = .ok p
    | some e => Program.ofSource t = .error e := by
  have hdeep : ∀ ns, (∀ k, (∀ p ∈ t.brackets.settled, p.level ≤ k) ↔ Node.depth ns ≤ k) →
      ((∃ p ∈ t.brackets.settled, Program.maxNesting < p.level) ↔
        ¬ Node.depth ns ≤ Program.maxNesting) := by
    intro ns h
    rw [← h]
    simp only [not_forall, Nat.not_le, exists_prop]
  rw [refusal?]
  rcases Spells.exists_prefix t (Nat.zero_le (t.tokens.size - 1)) with
    ⟨ns, hns⟩ | ⟨u, ns, hns, hu, ho, hc⟩
  · obtain ⟨hopen, hlevel⟩ := brackets_of_spells hns
    simp only [hdeep ns hlevel]
    rw [Program.ofSource_of_spells ht hns, Brackets.leftmost?, hopen]
    by_cases hd : Node.depth ns ≤ Program.maxNesting
    · simp [hd]
    · simp [hd]
  · obtain ⟨hleft, hlevel⟩ := brackets_of_unclosed hns hu ho hc
    simp only [hdeep ns hlevel]
    rw [Program.ofSource_of_unclosed ht hns hu ho hc, hleft]
    by_cases hd : Node.depth ns ≤ Program.maxNesting
    · simp [hd]
    · simp [hd]

theorem ok_iff_refusal (ht : t.tokens.size ≠ 0) :
    (∃ p, Program.ofSource t = .ok p) ↔ t.refusal? = none := by
  have h := ofSource_refusal t ht
  cases he : t.refusal? with
  | none => simpa [he] using h
  | some e =>
    simp only [he] at h
    simp [h]

theorem error_iff_refusal (ht : t.tokens.size ≠ 0) (e : ParseError) :
    Program.ofSource t = .error e ↔ t.refusal? = some e := by
  have h := ofSource_refusal t ht
  cases he : t.refusal? with
  | none =>
    obtain ⟨p, hp⟩ : ∃ p, Program.ofSource t = .ok p := by simpa [he] using h
    simp [hp]
  | some e' =>
    simp only [he] at h
    simp [h]

/-- The leftmost bracket left open is a token before the last one. -/
theorem exists_token_of_leftmost? (h : t.brackets.leftmost? = some u) :
    ∃ k, t.tokens.pop[u]? = some k ∧ (t.place u).line = k.line ∧
      (t.place u).column = k.column := by
  have hmem : u ∈ t.brackets.opened := List.min?_mem h
  have hu : u < t.tokens.size - 1 := by
    rcases (Brackets.mem_readAll t.kind {} (List.range (t.tokens.size - 1))).1 u hmem with h | h
    · exact absurd h List.not_mem_nil
    · exact List.mem_range.1 h
  have he : t.tokens[u]? = some t.tokens[u] := Array.getElem?_eq_getElem (by omega)
  refine ⟨t.tokens[u], by rw [Array.getElem?_pop, if_pos hu, he], ?_, ?_⟩ <;>
    rw [place, he] <;> rfl

theorem refusal?_eq_none_iff :
    t.refusal? = none ↔ (∀ p ∈ t.brackets.settled, p.level ≤ Program.maxNesting) ∧
      t.brackets.leftmost? = none := by
  rw [refusal?]
  split
  · next h =>
    obtain ⟨p, hp, hl⟩ := h
    refine ⟨fun h => (by cases h), fun h => absurd (h.1 p hp) (by omega)⟩
  · next h =>
    have hall : ∀ p ∈ t.brackets.settled, p.level ≤ Program.maxNesting :=
      fun p hp => Nat.le_of_not_lt fun hl => h ⟨p, hp, hl⟩
    rw [Option.map_eq_none_iff]
    exact ⟨fun hn => ⟨hall, hn⟩, fun hn => hn.2⟩

theorem refusal?_eq_tooDeep_iff :
    t.refusal? = some (.tooDeep t.file) ↔
      ∃ p ∈ t.brackets.settled, Program.maxNesting < p.level := by
  rw [refusal?]
  split
  · next h => exact ⟨fun _ => h, fun _ => rfl⟩
  · next h =>
    refine ⟨fun he => ?_, fun hd => absurd hd h⟩
    obtain ⟨u, -, hu⟩ := Option.map_eq_some_iff.1 he
    cases hu

/-- What is found wrong is the nesting, or the leftmost bracket left open. -/
theorem eq_of_refusal?_eq_some {e : ParseError} (h : t.refusal? = some e) :
    e = .tooDeep t.file ∨ ∃ u k, t.brackets.leftmost? = some u ∧ t.tokens.pop[u]? = some k ∧
      e = .notClosed t.file k.line k.column := by
  rw [refusal?] at h
  split at h
  · exact .inl (Option.some.inj h).symm
  · obtain ⟨u, hu, rfl⟩ := Option.map_eq_some_iff.1 h
    obtain ⟨k, hk, hl, hc⟩ := exists_token_of_leftmost? hu
    exact .inr ⟨u, k, hu, hk, by rw [hl, hc]⟩

/-- With nothing too deep, the leftmost bracket left open is blamed at its own place. -/
theorem refusal?_of_leftmost? {k : Token}
    (hd : ∀ p ∈ t.brackets.settled, p.level ≤ Program.maxNesting)
    (hu : t.brackets.leftmost? = some u) (hk : t.tokens.pop[u]? = some k) :
    t.refusal? = some (.notClosed t.file k.line k.column) := by
  obtain ⟨k', hk', hl, hc⟩ := exists_token_of_leftmost? hu
  obtain rfl : k = k' := Option.some.inj (hk.symm.trans hk')
  rw [refusal?, if_neg, hu, Option.map_some, hl, hc]
  rintro ⟨p, hp, hlt⟩
  exact absurd (hd p hp) (by omega)

/-- The last token and the lines of the text have no part in a refusal. -/
theorem refusal?_congr {t' : Source} (h : t'.tokens.pop = t.tokens.pop) (hf : t'.file = t.file) :
    t'.refusal? = t.refusal? := by
  have hb := brackets_congr (congrArg (Array.map Token.kind) h)
  have hplace : ∀ u, t.brackets.leftmost? = some u →
      (t'.place u).line = (t.place u).line ∧ (t'.place u).column = (t.place u).column := by
    intro u hu
    obtain ⟨k, hk, hl, hc⟩ := exists_token_of_leftmost? hu
    obtain ⟨k', hk', hl', hc'⟩ := exists_token_of_leftmost? (hb ▸ hu)
    obtain rfl : k' = k := Option.some.inj (hk'.symm.trans (h ▸ hk))
    exact ⟨hl'.trans hl.symm, hc'.trans hc.symm⟩
  rw [refusal?, refusal?, hb, hf]
  split
  · rfl
  · cases hu : t.brackets.leftmost? with
    | none => rfl
    | some u => rw [Option.map_some, Option.map_some, (hplace u hu).1, (hplace u hu).2]

end Source

open Source

/-- Stack matching of the tokens before the last one decides whether a token list is read, and
which of the two things that can be wrong is reported, and where. -/
theorem ofSource_by_matching (t : Source) (ht : t.tokens.size ≠ 0) :
    ((∀ p ∈ t.brackets.settled, p.level ≤ 420) →
      ((∃ p, Program.ofSource t = .ok p) ↔ t.brackets.leftmost? = none) ∧
      ∀ u, t.brackets.leftmost? = some u → ∃ k, t.tokens.pop[u]? = some k ∧
        Program.ofSource t = .error (.notClosed t.file k.line k.column)) ∧
    ((∃ p ∈ t.brackets.settled, 700 ≤ p.level) →
      Program.ofSource t = .error (.tooDeep t.file)) ∧
    (∀ e, Program.ofSource t = .error e →
      e = .tooDeep t.file ∧ e.message = s!"Loops nested too deeply in {t.file}" ∨
      ∃ u k, t.brackets.leftmost? = some u ∧ t.tokens.pop[u]? = some k ∧
        e = .notClosed t.file k.line k.column ∧
        e.message = s!"Loop not closed at {t.file}:{k.line}:{k.column}") ∧
    ∀ t' : Source, t'.tokens.size ≠ 0 →
      t'.tokens.pop.map Token.kind = t.tokens.pop.map Token.kind →
      ((∃ p, Program.ofSource t' = .ok p) ↔ ∃ p, Program.ofSource t = .ok p) ∧
      (Program.ofSource t' = .error (.tooDeep t'.file) ↔
        Program.ofSource t = .error (.tooDeep t.file)) ∧
      (t'.tokens.pop = t.tokens.pop → t'.file = t.file → ∀ e,
        Program.ofSource t' = .error e ↔ Program.ofSource t = .error e) := by
  refine ⟨fun hd => ⟨?_, fun u hu => ?_⟩, ?_, fun e he => ?_, fun t' ht' hk => ⟨?_, ?_, ?_⟩⟩
  · rw [ok_iff_refusal ht, refusal?_eq_none_iff]
    have hmax : ∀ p ∈ t.brackets.settled, p.level ≤ Program.maxNesting :=
      fun p hp => Nat.le_trans (hd p hp) (by decide)
    exact ⟨fun h => h.2, fun h => ⟨hmax, h⟩⟩
  · obtain ⟨k, hk, -⟩ := exists_token_of_leftmost? hu
    refine ⟨k, hk, (error_iff_refusal ht _).2 (refusal?_of_leftmost? ?_ hu hk)⟩
    exact fun p hp => Nat.le_trans (hd p hp) (by decide)
  · rintro ⟨p, hp, hl⟩
    rw [error_iff_refusal ht, refusal?_eq_tooDeep_iff]
    exact ⟨p, hp, Nat.lt_of_lt_of_le (by decide) hl⟩
  · rcases eq_of_refusal?_eq_some ((error_iff_refusal ht e).1 he) with
      rfl | ⟨u, k, hu, hk, rfl⟩
    · exact .inl ⟨rfl, rfl⟩
    · exact .inr ⟨u, k, hu, hk, rfl, rfl⟩
  · rw [ok_iff_refusal ht, ok_iff_refusal ht', refusal?_eq_none_iff, refusal?_eq_none_iff,
      brackets_congr hk]
  · rw [error_iff_refusal ht, error_iff_refusal ht', refusal?_eq_tooDeep_iff,
      refusal?_eq_tooDeep_iff, brackets_congr hk]
  · intro hp hf e
    rw [error_iff_refusal ht, error_iff_refusal ht', refusal?_congr hp hf]

/-- In `[][[]` the second bracket on the outside is blamed, not the closed one behind it. -/
theorem ofSource_blames_leftmost :
    let t : Source := ⟨#[⟨.opening, 1, 1⟩, ⟨.closing, 1, 2⟩, ⟨.opening, 1, 3⟩, ⟨.opening, 1, 4⟩,
      ⟨.closing, 1, 5⟩, ⟨.finish, 1, 6⟩], "<string>", #["[][[]"]⟩
    t.tokens.size ≠ 0 ∧ (∀ p ∈ t.brackets.settled, p.level ≤ 420) ∧
      Program.ofSource t = .error (.notClosed "<string>" 1 3) := by
  intro t
  have hsize : t.tokens.size ≠ 0 := by decide
  have hlevel : ∀ p ∈ t.brackets.settled, p.level ≤ 420 := by decide
  have hleft : t.brackets.leftmost? = some 2 := by decide
  obtain ⟨k, hk, he⟩ := ((ofSource_by_matching t hsize).1 hlevel).2 2 hleft
  obtain rfl : (⟨.opening, 1, 3⟩ : Token) = k := by simpa [t] using hk
  exact ⟨hsize, hlevel, he⟩

end TapeLang
