import Mathlib.Logic.Relation
import Mathlib.Order.Bounds.Defs
import TapeLang.Proofs.Reading

/-!
# Where the cursor goes

Reading keeps one cursor. At an opening bracket it looks ahead for the bracket that closes the loop,
reads what lies between them as a span of its own, and goes on behind that bracket. The search comes
out at the one closing bracket up to which the brackets are balanced. A span that is read is left at
its end, and no token in it goes into more than one statement. Every span is strictly inside the one
from which it is entered, so reading ends; and within a loop that is closed each bracket has its
partner, so no search fails there and nothing is passed over as a stray.
-/

namespace TapeLang

open Source

/-! ## Balanced spans -/

namespace Source

variable {t : Source} {i j stop p : Nat}

/-- The brackets among the tokens from `i` up to `j` are balanced: each one has its partner. -/
def Balanced (t : Source) (i j : Nat) : Prop := ∃ d, Nested t.kind false d (span i j)

/-- A closing bracket before `stop` up to which the brackets from `i` on are balanced. -/
structure Closes (t : Source) (i stop p : Nat) : Prop where
  le : i ≤ p
  lt : p < stop
  closing : t.kind p = .closing
  balanced : t.Balanced i p

theorem span_eq_cons {a : Nat} {as : List Nat} (h : span i j = a :: as) :
    i < j ∧ a = i ∧ as = span (i + 1) j := by
  have hij : i < j := by
    have hmem : a ∈ span i j := h ▸ List.mem_cons_self
    have := mem_span.1 hmem
    omega
  rw [span_cons hij] at h
  obtain ⟨ha, has⟩ := List.cons.inj h
  exact ⟨hij, ha.symm, has.symm⟩

theorem span_eq_append {b : Nat} {as bs : List Nat} (h : span i j = as ++ b :: bs) :
    i ≤ b ∧ b < j ∧ as = span i b ∧ bs = span (b + 1) j := by
  obtain ⟨k, hk, has, hbs⟩ := List.range'_eq_append_iff.1 h
  have hrest : span (i + k) j = b :: bs := by
    rw [span, Nat.sub_add_eq, hbs, Nat.mul_one]
  obtain ⟨hlt, rfl, hspan⟩ := span_eq_cons hrest
  refine ⟨Nat.le_add_right i k, hlt, ?_, hspan⟩
  rw [has, span, Nat.add_sub_cancel_left]

end Source

namespace Spells

variable {t : Source} {top : Bool} {i j stop : Nat} {ns : List Node}

/-- A span spells a list as soon as its brackets are nested. -/
theorem exists_of_nested {d : Nat} (h : Nested t.kind top d (span i j)) (hij : i ≤ j) :
    ∃ ns, Spells t top i j ns := by
  generalize hs : span i j = as at h
  induction h generalizing i j with
  | nil top =>
    have he : i = j := by
      by_contra hne
      rw [span_cons (by omega)] at hs
      cases hs
    exact ⟨[], he ▸ .nil top i⟩
  | @pass top d a as ho hc _ ih =>
    obtain ⟨hlt, rfl, rfl⟩ := span_eq_cons hs
    obtain ⟨ns, hns⟩ := ih hlt rfl
    cases hk : t.kind a with
    | opening => exact absurd hk ho
    | closing => exact absurd hk hc
    | op o => exact ⟨_, .op hk hns⟩
    | finish => exact ⟨ns, .pass (.inl hk) hns⟩
    | other => exact ⟨ns, .pass (.inr hk) hns⟩
  | stray hc _ ih =>
    obtain ⟨hlt, rfl, rfl⟩ := span_eq_cons hs
    obtain ⟨ns, hns⟩ := ih hlt rfl
    exact ⟨ns, .stray hc hns⟩
  | loop ho _ hc _ ihBody ihRest =>
    obtain ⟨-, rfl, hrest⟩ := span_eq_cons hs
    obtain ⟨hle, hlt, rfl, rfl⟩ := span_eq_append hrest.symm
    obtain ⟨body, hbody⟩ := ihBody hle rfl
    obtain ⟨ns, hns⟩ := ihRest hlt rfl
    exact ⟨_, .loop ho hbody hc hns⟩

/-- At an opening bracket what spells a list goes on with a loop, and the search finds its end. -/
theorem at_opening (h : Spells t top i stop ns) (hi : i < stop) (ho : t.kind i = .opening) :
    ∃ p body rest, t.closer? stop 1 (i + 1) = some p ∧ Spells t false (i + 1) p body ∧
      Spells t top (p + 1) stop rest := by
  cases h with
  | nil => exact absurd hi (Nat.lt_irrefl _)
  | op hk => rw [hk] at ho; cases ho
  | pass hk => rcases hk with hk | hk <;> rw [hk] at ho <;> cases ho
  | stray hk => rw [hk] at ho; cases ho
  | @loop _ _ p _ body rest _ inside hc hrest =>
    refine ⟨p, body, rest, ?_, inside, hrest⟩
    have hlt := hrest.le
    rw [inside.closer?_eq (Nat.le_of_lt hlt), closer?_last hlt hc]

/-- Anywhere else it goes on behind the next token; inside a loop that is no closing bracket. -/
theorem behind (h : Spells t top i stop ns) (hi : i < stop) (ho : t.kind i ≠ .opening) :
    (∃ rest, Spells t top (i + 1) stop rest) ∧ (top = false → t.kind i ≠ .closing) := by
  cases h with
  | nil => exact absurd hi (Nat.lt_irrefl _)
  | op hk hrest => exact ⟨⟨_, hrest⟩, fun _ hc => by rw [hk] at hc; cases hc⟩
  | pass hk hrest =>
    refine ⟨⟨_, hrest⟩, fun _ hc => ?_⟩
    rcases hk with hk | hk <;> rw [hk] at hc <;> cases hc
  | stray hk hrest => exact ⟨⟨_, hrest⟩, fun htop => by cases htop⟩
  | loop hk => exact absurd hk ho

end Spells

namespace Source

variable {t : Source} {i stop p q : Nat}

/-- The search comes out where the brackets are balanced up to a closing one. -/
theorem closer?_eq_some_iff : t.closer? stop 1 i = some p ↔ t.Closes i stop p := by
  constructor
  · intro h
    obtain ⟨body, hbody, hc, hlt⟩ := Spells.body_of_closer? h
    exact ⟨hbody.le, hlt, hc, _, hbody.nested⟩
  · rintro ⟨hle, hlt, hc, d, hnested⟩
    obtain ⟨body, hbody⟩ := Spells.exists_of_nested hnested hle
    rw [hbody.closer?_eq (Nat.le_of_lt hlt), closer?_last hlt hc]

/-- There is no more than one such bracket. -/
theorem Closes.unique (hp : t.Closes i stop p) (hq : t.Closes i stop q) : p = q :=
  Option.some.inj ((closer?_eq_some_iff.2 hp).symm.trans (closer?_eq_some_iff.2 hq))

theorem isLeast_closes_iff : IsLeast {q | t.Closes i stop q} p ↔ t.Closes i stop p :=
  ⟨fun h => h.1, fun h => ⟨h, fun _ hq => Nat.le_of_eq (h.unique hq)⟩⟩

theorem closer?_eq_none_iff : t.closer? stop 1 i = none ↔ ∀ q, ¬ t.Closes i stop q := by
  rw [Option.eq_none_iff_forall_ne_some]
  exact forall_congr' fun q => not_congr closer?_eq_some_iff

end Source

/-! ## The tokens of a statement -/

/-- The statements are made of the tokens at these indices: an operation of one token, and a loop of
its two brackets and the tokens of its body, which are balanced. -/
inductive MadeOf (t : Source) : List Node → List Nat → Prop where
  | nil : MadeOf t [] []
  | op {k : Nat} {o : Op} {ns : List Node} {ks : List Nat} (h : t.kind k = .op o)
      (rest : MadeOf t ns ks) : MadeOf t (.op o (some (t.place k)) :: ns) (k :: ks)
  | loop {a b : Nat} {body ns : List Node} {ks ls : List Nat} (ho : t.kind a = .opening)
      (inside : MadeOf t body ks) (balanced : t.Balanced (a + 1) b) (hc : t.kind b = .closing)
      (rest : MadeOf t ns ls) : MadeOf t (.loop (t.place a) body :: ns) (a :: (ks ++ b :: ls))

/-- The tokens of a span that go into statements: each one at most once, in their order. What is
left over is no instruction, or else, with `top`, a closing bracket. -/
structure Source.Uses (t : Source) (top : Bool) (i j : Nat) (ks : List Nat) : Prop where
  sublist : ks.Sublist (span i j)
  left_over : ∀ k ∈ span i j, k ∉ ks →
    t.kind k = .finish ∨ t.kind k = .other ∨ top = true ∧ t.kind k = .closing

namespace Source.Uses

variable {t : Source} {top : Bool} {i j p : Nat} {ks ls : List Nat}

theorem nil : t.Uses top i i [] where
  sublist := List.nil_sublist _
  left_over k hk := by
    rw [span_self] at hk
    exact absurd hk List.not_mem_nil

/-- The next token is used. -/
theorem take (h : t.Uses top (i + 1) j ks) (hij : i < j) : t.Uses top i j (i :: ks) where
  sublist := by
    rw [span_cons hij]
    exact h.sublist.cons_cons i
  left_over := by
    rw [span_cons hij, List.forall_mem_cons]
    refine ⟨fun hi => absurd List.mem_cons_self hi, fun k hk hks => ?_⟩
    exact h.left_over k hk fun hmem => hks (List.mem_cons_of_mem i hmem)

/-- The next token is left over. -/
theorem skip (h : t.Uses top (i + 1) j ks) (hij : i < j)
    (hi : t.kind i = .finish ∨ t.kind i = .other ∨ top = true ∧ t.kind i = .closing) :
    t.Uses top i j ks where
  sublist := by
    rw [span_cons hij]
    exact h.sublist.cons i
  left_over := by
    rw [span_cons hij, List.forall_mem_cons]
    exact ⟨fun _ => hi, h.left_over⟩

theorem append (h : t.Uses top i p ks) (h' : t.Uses top p j ls) (hi : i ≤ p) (hj : p ≤ j) :
    t.Uses top i j (ks ++ ls) where
  sublist := by
    rw [span_append hi hj]
    exact h.sublist.append h'.sublist
  left_over := by
    rw [span_append hi hj, List.forall_mem_append]
    constructor
    · exact fun k hk hks => h.left_over k hk fun hmem => hks (List.mem_append_left ls hmem)
    · exact fun k hk hks => h'.left_over k hk fun hmem => hks (List.mem_append_right ks hmem)

/-- Where nothing is stray, nothing is stray at the top either. -/
theorem of_inside (h : t.Uses false i j ks) : t.Uses top i j ks where
  sublist := h.sublist
  left_over k hk hks := by
    rcases h.left_over k hk hks with hf | ho | ⟨hfalse, -⟩
    · exact .inl hf
    · exact .inr (.inl ho)
    · cases hfalse

end Source.Uses

/-- What spells a list is what the list is made of. -/
theorem Spells.exists_uses {t : Source} {top : Bool} {i j : Nat} {ns : List Node}
    (h : Spells t top i j ns) : ∃ ks, t.Uses top i j ks ∧ MadeOf t ns ks := by
  induction h with
  | nil => exact ⟨[], .nil, .nil⟩
  | op hk rest ih =>
    obtain ⟨ks, huses, hmade⟩ := ih
    exact ⟨_, huses.take rest.le, .op hk hmade⟩
  | pass hk rest ih =>
    obtain ⟨ks, huses, hmade⟩ := ih
    exact ⟨ks, huses.skip rest.le (hk.imp_right .inl), hmade⟩
  | stray hk rest ih =>
    obtain ⟨ks, huses, hmade⟩ := ih
    exact ⟨ks, huses.skip rest.le (.inr (.inr ⟨rfl, hk⟩)), hmade⟩
  | loop ho inside hc rest ihBody ihRest =>
    obtain ⟨ks, huses, hmade⟩ := ihBody
    obtain ⟨ls, huses', hmade'⟩ := ihRest
    have hp := inside.le
    have hj := rest.le
    have hbehind := huses.of_inside.append (huses'.take hj) hp (Nat.le_of_lt hj)
    exact ⟨_, hbehind.take (Nat.lt_trans hp hj), .loop ho hmade ⟨_, inside.nested⟩ hc hmade'⟩

/-! ## Cursors -/

/-- A reader at work: the cursor, the end of the span that is read, and how many loops it is in. -/
structure Cursor where
  index : Nat
  stop : Nat
  depth : Nat

namespace Cursor

variable {t : Source} {c c' : Cursor} {e : ParseError} {done : List Node}

/-- Read on from the cursor to the end of its span. -/
def read (t : Source) (c : Cursor) (done : List Node) : Except ParseError (List Node × Nat) :=
  Program.readSpan t c.stop c.depth c.index done

/-- The cursor is at a loop that is closed within its span; another cursor is to read the body. -/
inductive Enters (t : Source) : Cursor → Cursor → Prop where
  | loop {i stop depth p : Nat} (hi : i < stop) (ho : t.kind i = .opening)
      (hc : t.closer? stop 1 (i + 1) = some p) :
      Enters t ⟨i, stop, depth⟩ ⟨i + 1, p, depth + 1⟩

/-- Where reading goes next. -/
inductive Next (t : Source) : Cursor → Cursor → Prop where
  /-- Over a token that opens no loop. -/
  | past {i stop depth : Nat} (hi : i < stop) (ho : t.kind i ≠ .opening) :
      Next t ⟨i, stop, depth⟩ ⟨i + 1, stop, depth⟩
  /-- Into the body of a loop. -/
  | inside {c c' : Cursor} (h : Enters t c c') (hd : c.depth < Program.maxNesting) : Next t c c'
  /-- Behind the closing bracket of a loop, once its body is read. -/
  | behind {c c' : Cursor} {r : List Node × Nat} (h : Enters t c c')
      (hd : c.depth < Program.maxNesting) (hr : c'.read t [] = .ok r) :
      Next t c ⟨c'.stop + 1, c.stop, c.depth⟩

/-- Wherever reading goes from a cursor. -/
abbrev Reaches (t : Source) : Cursor → Cursor → Prop := Relation.ReflTransGen (Next t)

/-- What is found wrong at the cursor. -/
inductive Fails (t : Source) : Cursor → ParseError → Prop where
  /-- It is at a loop that is not closed within its span. -/
  | notClosed {i stop depth : Nat} (hi : i < stop) (ho : t.kind i = .opening)
      (hc : t.closer? stop 1 (i + 1) = none) :
      Fails t ⟨i, stop, depth⟩ (.notClosed t.file (t.place i).line (t.place i).column)
  /-- It is at a loop that lies in too many others. -/
  | tooDeep {c c' : Cursor} (h : Enters t c c') (hd : Program.maxNesting ≤ c.depth) :
      Fails t c (.tooDeep t.file)

/-! ## Where reading ends -/

/-- A body lies strictly inside the span from which it is entered. -/
theorem Enters.within (h : Enters t c c') :
    c.index < c'.index ∧ c'.index ≤ c'.stop ∧ c'.stop < c.stop := by
  cases h with
  | loop hi ho hc =>
    have := closer?_bounds hc
    exact ⟨Nat.lt_succ_self _, this.1, this.2⟩

/-- The cursor goes on within the span. -/
theorem Next.within (h : Next t c c') :
    c.index < c'.index ∧ c'.index ≤ c'.stop ∧ c'.stop ≤ c.stop := by
  cases h with
  | past hi ho => exact ⟨Nat.lt_succ_self _, hi, Nat.le_refl _⟩
  | inside h hd =>
    have := h.within
    omega
  | behind h hd hr =>
    have := h.within
    simp only
    omega

/-- There is always less to read. -/
theorem Next.remaining_lt (h : Next t c c') : c'.stop - c'.index < c.stop - c.index := by
  have := h.within
  omega

/-- Reading ends: nothing goes on for ever from a cursor. -/
theorem wellFounded_next (t : Source) : WellFounded fun c' c => Next t c c' :=
  Subrelation.wf Next.remaining_lt
    (InvImage.wf (fun c : Cursor => c.stop - c.index) Nat.lt_wfRel.wf)

theorem Reaches.within (h : Reaches t c c') (hc : c.index ≤ c.stop) :
    c.index ≤ c'.index ∧ c'.index ≤ c'.stop ∧ c'.stop ≤ c.stop := by
  induction h with
  | refl => exact ⟨Nat.le_refl _, hc, Nat.le_refl _⟩
  | tail _ hnext ih =>
    have := hnext.within
    omega

/-! ## How reading fails -/

/-- At the opening bracket of a loop the body is read first, if it does not lie too deep. -/
theorem Enters.read_eq (h : Enters t c c') (done : List Node) :
    c.read t done = if Program.maxNesting ≤ c.depth then .error (.tooDeep t.file)
      else match c'.read t [] with
        | .error e => .error e
        | .ok (body, _) => Cursor.read t ⟨c'.stop + 1, c.stop, c.depth⟩
          (.loop (t.place c.index) body :: done) := by
  cases h with
  | loop hi ho hc => exact Program.readSpan_loop hi ho hc

theorem Fails.read_eq (h : Fails t c e) (done : List Node) : c.read t done = .error e := by
  cases h with
  | notClosed hi ho hc => exact Program.readSpan_unclosed hi ho hc
  | tooDeep h hd => rw [h.read_eq, if_pos hd]

/-- Over any other token reading goes on with or without a statement for it. -/
theorem exists_read_past {i stop depth : Nat} (hi : i < stop) (ho : t.kind i ≠ .opening)
    (done : List Node) :
    ∃ done', Cursor.read t ⟨i, stop, depth⟩ done = Cursor.read t ⟨i + 1, stop, depth⟩ done' := by
  by_cases hop : ∃ o, t.kind i = .op o
  · obtain ⟨o, hop⟩ := hop
    exact ⟨_, Program.readSpan_op hi hop⟩
  · exact ⟨done, Program.readSpan_pass hi ho (not_exists.1 hop)⟩

/-- A failure further on is a failure of the whole. -/
theorem Next.read_eq (h : Next t c c') (he : ∀ done, c'.read t done = .error e)
    (done : List Node) : c.read t done = .error e := by
  cases h with
  | past hi ho =>
    obtain ⟨done', hread⟩ := exists_read_past hi ho done
    rw [hread, he]
  | inside h hd => rw [h.read_eq, if_neg (Nat.not_le.2 hd), he]
  | behind h hd hr =>
    rw [h.read_eq, if_neg (Nat.not_le.2 hd), hr]
    exact he _

/-- A failure is found at the cursor, or where reading goes next. -/
theorem fails_or_next (h : c.read t done = .error e) :
    Fails t c e ∨ ∃ c' done', Next t c c' ∧ c'.read t done' = .error e := by
  obtain ⟨i, stop, depth⟩ := c
  by_cases hi : i < stop
  · by_cases ho : t.kind i = .opening
    · cases hc : t.closer? stop 1 (i + 1) with
      | none =>
        have hfails : Fails t ⟨i, stop, depth⟩ _ := .notClosed hi ho hc
        obtain rfl := Except.error.inj ((hfails.read_eq done).symm.trans h)
        exact .inl hfails
      | some p =>
        have henter : Enters t ⟨i, stop, depth⟩ ⟨i + 1, p, depth + 1⟩ := .loop hi ho hc
        by_cases hd : Program.maxNesting ≤ depth
        · have hfails : Fails t ⟨i, stop, depth⟩ _ := .tooDeep henter hd
          obtain rfl := Except.error.inj ((hfails.read_eq done).symm.trans h)
          exact .inl hfails
        · have hlt := Nat.not_le.1 hd
          rw [henter.read_eq, if_neg hd] at h
          cases hr : Cursor.read t ⟨i + 1, p, depth + 1⟩ [] with
          | error e' =>
            rw [hr] at h
            exact .inr ⟨_, [], .inside henter hlt, hr.trans h⟩
          | ok r =>
            rw [hr] at h
            exact .inr ⟨_, _, .behind henter hlt hr, h⟩
    · obtain ⟨done', hread⟩ := exists_read_past hi ho done
      exact .inr ⟨_, done', .past hi ho, hread.symm.trans h⟩
  · rw [read, Program.readSpan_stop (Nat.not_lt.1 hi)] at h
    cases h

/-- Reading fails with just what is found wrong on its way. -/
theorem read_eq_error_iff :
    c.read t done = .error e ↔ ∃ c', Reaches t c c' ∧ Fails t c' e := by
  constructor
  · intro h
    induction c using (wellFounded_next t).induction generalizing done with
    | _ c ih =>
      rcases fails_or_next h with hfails | ⟨c', done', hnext, hread⟩
      · exact ⟨c, .refl, hfails⟩
      · obtain ⟨c'', hreach, hfails⟩ := ih c' hnext hread
        exact ⟨c'', hreach.head hnext, hfails⟩
  · rintro ⟨c', hreach, hfails⟩
    induction hreach using Relation.ReflTransGen.head_induction_on generalizing done with
    | refl => exact hfails.read_eq done
    | head hnext _ ih => exact hnext.read_eq (fun _ => ih) done

/-! ## Inside a closed loop -/

/-- What is left of a body spells a list wherever the cursor goes. -/
theorem Next.spells (h : Next t c c') {ns : List Node} (hs : Spells t false c.index c.stop ns) :
    ∃ ms, Spells t false c'.index c'.stop ms := by
  cases h with
  | past hi ho => exact (hs.behind hi ho).1
  | inside h hd =>
    obtain ⟨hi, ho, hc⟩ := h
    obtain ⟨q, body, rest, hq, hbody, -⟩ := hs.at_opening hi ho
    obtain rfl := Option.some.inj (hc.symm.trans hq)
    exact ⟨body, hbody⟩
  | behind h hd hr =>
    obtain ⟨hi, ho, hc⟩ := h
    obtain ⟨q, body, rest, hq, -, hrest⟩ := hs.at_opening hi ho
    obtain rfl := Option.some.inj (hc.symm.trans hq)
    exact ⟨rest, hrest⟩

theorem Reaches.spells (h : Reaches t c c') {ns : List Node}
    (hs : Spells t false c.index c.stop ns) : ∃ ms, Spells t false c'.index c'.stop ms := by
  induction h with
  | refl => exact ⟨ns, hs⟩
  | tail _ hnext ih =>
    obtain ⟨ms, hms⟩ := ih
    exact hnext.spells hms

end Cursor

/-! ## Spans that are read -/

namespace Program

variable {t : Source} {i stop depth j : Nat} {done ns : List Node}

/-- A span that is read spells the statements that reading adds, and the cursor is at its end. -/
theorem spells_of_readSpan (hi : i ≤ stop) (h : readSpan t stop depth i done = .ok (ns, j)) :
    j = stop ∧ ∃ ms, ns = done.reverse ++ ms ∧ Spells t true i stop ms := by
  rcases Spells.exists_prefix t hi with ⟨ms, hms⟩ | ⟨u, ms, hms, hu, ho, hc⟩
  · rw [readSpan_to_end hms] at h
    split at h
    · cases h
      exact ⟨rfl, ms, rfl, hms⟩
    · cases h
  · rw [readSpan_of_spells hms (Nat.le_of_lt hu)] at h
    split at h
    · rw [readSpan_unclosed hu ho hc] at h
      cases h
    · cases h

/-- The body of a closed loop is read as what it spells. -/
theorem spells_of_readSpan_body {p : Nat} (hc : t.closer? stop 1 i = some p)
    (h : readSpan t p depth i [] = .ok (ns, j)) : j = p ∧ Spells t false i p ns := by
  obtain ⟨body, hbody, -, -⟩ := Spells.body_of_closer? hc
  rw [readSpan_to_end hbody] at h
  split at h
  · cases h
    exact ⟨rfl, hbody⟩
  · cases h

/-- Reading goes by spans. The search comes out at the first closing bracket up to which the
brackets are balanced, or else there is none. A span that is read is left at its end, each of its
tokens used at most once, and it is refused for just what is wrong somewhere on the way. Within a
loop that is closed no search fails and no closing bracket is passed over. A body lies strictly
inside the span that it is part of, and reading ends. -/
theorem readSpan_by_spans (t : Source) {i stop : Nat} (hi : i ≤ stop) :
    (∀ p, t.closer? stop 1 i = some p ↔ IsLeast {q | t.Closes i stop q} p) ∧
    (t.closer? stop 1 i = none ↔ ∀ q, ¬ t.Closes i stop q) ∧
    (∀ depth ns j, readSpan t stop depth i [] = .ok (ns, j) →
      j = stop ∧ ∃ ks, t.Uses true i stop ks ∧ MadeOf t ns ks) ∧
    (∀ depth e, readSpan t stop depth i [] = .error e ↔
      ∃ c, Cursor.Reaches t ⟨i, stop, depth⟩ c ∧ Cursor.Fails t c e) ∧
    (∀ p depth, t.closer? stop 1 i = some p →
      (∀ c, Cursor.Reaches t ⟨i, p, depth⟩ c → c.index < c.stop →
        t.kind c.index ≠ .closing ∧
        (t.kind c.index = .opening → ∃ q, t.closer? c.stop 1 (c.index + 1) = some q)) ∧
      ∀ body j, readSpan t p depth i [] = .ok (body, j) →
        j = p ∧ ∃ ks, t.Uses false i p ks ∧ MadeOf t body ks) ∧
    (∀ depth c, Cursor.Reaches t ⟨i, stop, depth⟩ c →
      i ≤ c.index ∧ c.index ≤ c.stop ∧ c.stop ≤ stop ∧
      ∀ c', Cursor.Enters t c c' → c.index < c'.index ∧ c'.index ≤ c'.stop ∧ c'.stop < c.stop) ∧
    WellFounded fun c' c => Cursor.Next t c c' := by
  refine ⟨fun p => closer?_eq_some_iff.trans isLeast_closes_iff.symm, closer?_eq_none_iff,
    fun depth ns j h => ?_, fun depth e => ?_, fun p depth hc => ⟨?_, ?_⟩,
    fun depth c hreach => ?_, Cursor.wellFounded_next t⟩
  · obtain ⟨hj, ms, rfl, hms⟩ := spells_of_readSpan hi h
    exact ⟨hj, hms.exists_uses⟩
  · exact Cursor.read_eq_error_iff (c := ⟨i, stop, depth⟩)
  · intro c hreach hlt
    obtain ⟨body, hbody, -, -⟩ := Spells.body_of_closer? hc
    obtain ⟨ms, hms⟩ := hreach.spells hbody
    refine ⟨fun hk => ?_, fun ho => ?_⟩
    · exact (hms.behind hlt (by rw [hk]; decide)).2 rfl hk
    · obtain ⟨q, _, _, hq, -⟩ := hms.at_opening hlt ho
      exact ⟨q, hq⟩
  · intro body j h
    obtain ⟨hj, hbody⟩ := spells_of_readSpan_body hc h
    exact ⟨hj, hbody.exists_uses⟩
  · obtain ⟨hle, hin, hstop⟩ := hreach.within hi
    exact ⟨hle, hin, hstop, fun c' h => h.within⟩

/-- In `]+[-[.]x]` the outer loop is closed by the last bracket, the inner one within its body. -/
theorem readSpan_by_spans_nested :
    let t : Source := ⟨#[⟨.closing, 1, 1⟩, ⟨.op .increment, 1, 2⟩, ⟨.opening, 1, 3⟩,
      ⟨.op .decrement, 1, 4⟩, ⟨.opening, 1, 5⟩, ⟨.op .output, 1, 6⟩, ⟨.closing, 1, 7⟩,
      ⟨.other, 1, 8⟩, ⟨.closing, 1, 9⟩, ⟨.finish, 1, 10⟩], "<string>", #["]+[-[.]x]"]⟩
    (0 ≤ 9 ∧ ∃ ns, readSpan t 9 0 0 [] = .ok (ns, 9) ∧ ∃ ks, t.Uses true 0 9 ks ∧ MadeOf t ns ks) ∧
    3 ≤ 9 ∧ t.closer? 9 1 3 = some 8 ∧ IsLeast {q | t.Closes 3 9 q} 8 ∧
    (∃ body, readSpan t 8 1 3 [] = .ok (body, 8) ∧ ∃ ks, t.Uses false 3 8 ks ∧ MadeOf t body ks) ∧
    Cursor.Reaches t ⟨3, 8, 1⟩ ⟨4, 8, 1⟩ ∧ ∃ q, t.closer? 8 1 5 = some q := by
  intro t
  have hinner : Spells t false 5 6 [.op .output (some (t.place 5))] := .op rfl (.nil false 6)
  have hbody : Spells t false 3 8 _ := .op rfl (.loop rfl hinner rfl (.pass (.inr rfl) (.nil _ 8)))
  have hwhole : Spells t true 0 9 _ := .stray rfl (.op rfl (.loop rfl hbody rfl (.nil true 9)))
  have hclose : t.closer? 9 1 3 = some 8 := by
    rw [hbody.closer?_eq (by decide), closer?_last (by decide) rfl]
  have hread : readSpan t 9 0 0 [] = .ok (_, 9) :=
    (readSpan_to_end hwhole).trans (if_pos (by simp [Node.depth, maxNesting]))
  have hreadBody : readSpan t 8 1 3 [] = .ok (_, 8) :=
    (readSpan_to_end hbody).trans (if_pos (by simp [Node.depth, maxNesting]))
  have hstep : Cursor.Next t ⟨3, 8, 1⟩ ⟨4, 8, 1⟩ := .past (by decide) (by decide)
  obtain ⟨-, -, hwholeUsed, -⟩ := readSpan_by_spans t (Nat.zero_le 9)
  obtain ⟨hleast, -, -, -, hinside, -⟩ := readSpan_by_spans t (show 3 ≤ 9 by decide)
  obtain ⟨hsearch, hbodyUsed⟩ := hinside 8 1 hclose
  refine ⟨⟨Nat.zero_le 9, _, hread, (hwholeUsed 0 _ 9 hread).2⟩, by decide, hclose,
    (hleast 8).1 hclose, ⟨_, hreadBody, (hbodyUsed _ 8 hreadBody).2⟩, .single hstep, ?_⟩
  exact (hsearch ⟨4, 8, 1⟩ (.single hstep) (by decide)).2 rfl

end Program

end TapeLang
