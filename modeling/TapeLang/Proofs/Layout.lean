import Mathlib.Data.List.Sort
import TapeLang.Proofs.Relaid
import TapeLang.Proofs.RoundTrip
import TapeLang.Script

/-!
# Layout and commentary

What is written between the instructions of a text, and the closing brackets that close nothing,
have no part in what the text means. Matching passes over strays, and it goes by the order of the
instructions and not by where they stand. So texts with the same code are refused for the same
reason or are programs of the same shape, and programs of the same shape run alike.
-/

namespace TapeLang

/-! ## Matching without strays -/

namespace Brackets

/-- Strays may be left out. -/
theorem readAll_dropStrays {α : Type} (kind : α → Token.Kind) (m : Brackets α) (as : List α) :
    m.readAll kind (dropStrays kind m.opened.length as) = m.readAll kind as := by
  induction as generalizing m with
  | nil => rfl
  | cons a as ih =>
    have hread := ih (m.read kind a)
    rw [readAll_cons, ← hread, dropStrays]
    split
    · next h => rw [readAll_cons, read_opening h, List.length_cons]
    · next h =>
      obtain ⟨opened, pairs⟩ := m
      cases opened with
      | nil =>
        rw [read_stray h rfl]
        rfl
      | cons b rest =>
        rw [if_neg (by simp), readAll_cons, read_closing h]
        rfl
    · next ho hc => rw [readAll_cons, read_pass ho hc]

/-- The brackets of a list of kinds, named by their indices in it. -/
def ofKinds (ks : List Token.Kind) : Brackets Nat :=
  readAll (fun i => ks[i]?.getD .other) {} (List.range ks.length)

/-- Matched items are named by their indices in the list. -/
theorem readAll_eq_map (kind : Nat → Token.Kind) (as : List Nat) :
    readAll kind {} as = (ofKinds (as.map kind)).map fun i => as[i]?.getD 0 := by
  have hitems : as = (List.range as.length).map fun i => as[i]?.getD 0 := by
    apply List.ext_getElem
    · simp
    · intro i hi hi'
      simp [List.getElem?_eq_getElem hi]
  have hkind : ∀ i ∈ List.range as.length,
      (kind ∘ fun i => as[i]?.getD 0) i = ((as.map kind)[i]?).getD .other := by
    intro i hi
    simp [List.getElem?_eq_getElem (List.mem_range.1 hi)]
  have hmap := readAll_map kind (fun i => as[i]?.getD 0) {} (List.range as.length)
  rw [← hitems, readAll_congr hkind] at hmap
  rw [ofKinds, List.length_map, ← hmap]
  rfl

/-- Names in the same order settle the same pairs. -/
theorem levels_settled_map {m : Brackets Nat} {f : Nat → Nat}
    (h : ∀ p ∈ m.pairs, ∀ u ∈ m.opened, f p.closing < f u ↔ p.closing < u) :
    (m.map f).settled.map Pair.level = m.settled.map Pair.level := by
  have hfilter : ∀ p ∈ m.pairs,
      (m.opened.map f).all (fun u => f p.closing < u) = m.opened.all fun u => p.closing < u := by
    intro p hp
    rw [List.all_map, Bool.eq_iff_iff, List.all_eq_true, List.all_eq_true]
    exact forall₂_congr fun u hu => by simp [h p hp u hu]
  rw [settled, settled, map, List.filter_map, List.map_map]
  exact congrArg (List.map Pair.level) (List.filter_congr hfilter)

/-- For items in ascending order only their kinds matter: to the levels of the pairs that lie before
every open bracket, and to whether a bracket is left open. -/
theorem readAll_ascending (kind : Nat → Token.Kind) {as : List Nat} (h : as.Pairwise (· < ·)) :
    (readAll kind {} as).settled.map Pair.level =
        (ofKinds (as.map kind)).settled.map Pair.level ∧
      ((readAll kind {} as).leftmost? = none ↔ (ofKinds (as.map kind)).opened = []) := by
  rw [readAll_eq_map kind as]
  constructor
  · refine levels_settled_map fun p hp u hu => ?_
    obtain ⟨hopen, hpair⟩ := mem_readAll (fun i => ((as.map kind)[i]?).getD .other) {}
      (List.range (as.map kind).length)
    have hindex : ∀ {i : Nat}, i ∈ List.range (as.map kind).length → i < as.length := by
      intro i hi
      simpa using hi
    have hc : p.closing < as.length := hindex ((hpair p hp).resolve_left List.not_mem_nil)
    have hu : u < as.length := hindex ((hopen u hu).resolve_left List.not_mem_nil)
    rw [List.getElem?_eq_getElem hc, List.getElem?_eq_getElem hu, Option.getD_some,
      Option.getD_some]
    have hmono : as.get ⟨p.closing, hc⟩ < as.get ⟨u, hu⟩ ↔ _ := h.sortedLT.strictMono_get.lt_iff_lt
    exact hmono
  · rw [leftmost?, List.min?_eq_none_iff]
    exact List.map_eq_nil_iff

end Brackets

/-! ## Texts with the same code -/

namespace Text

/-- The tokens that are no strays have the kinds of the code. -/
theorem map_kind_code (text file : String) :
    (dropStrays (Source.ofText text file).kind 0
      (List.range (instructions text.toList).length)).map (Source.ofText text file).kind =
      ((code text.toList).map Prod.fst).map Token.Kind.ofChar := by
  have hcode : code text.toList = (dropStrays (Source.ofText text file).kind 0
      (List.range (instructions text.toList).length)).map (entry text.toList) := by
    rw [dropStrays_congr fun _ => kind_ofText, ← dropStrays_map, map_entry, code]
  rw [hcode, List.map_map, List.map_map]
  refine List.map_congr_left fun k hk => ?_
  exact kind_ofText ((dropStrays_sublist _ _ _).subset hk)

/-- What stack matching says of a text is said by the code of the text. -/
theorem matching_ofText (text file : String) :
    let m := Brackets.ofKinds (((code text.toList).map Prod.fst).map Token.Kind.ofChar)
    (Source.ofText text file).brackets.settled.map Pair.level = m.settled.map Pair.level ∧
      ((Source.ofText text file).brackets.leftmost? = none ↔ m.opened = []) := by
  have hsorted : (dropStrays (Source.ofText text file).kind 0
      (List.range (instructions text.toList).length)).Pairwise (· < ·) :=
    List.pairwise_lt_range.sublist (dropStrays_sublist _ _ _)
  have hmatch := Brackets.readAll_ascending (Source.ofText text file).kind hsorted
  have hstrays := Brackets.readAll_dropStrays (Source.ofText text file).kind {}
    (List.range (instructions text.toList).length)
  rw [List.length_nil] at hstrays
  rw [map_kind_code, hstrays] at hmatch
  rw [Source.brackets, size_ofText, Nat.add_sub_cancel]
  exact hmatch

variable {a b : String}

/-- Texts with the same code are programs or refused together, and refused for the same reason. -/
theorem refusal?_of_code (file file' : String)
    (h : (code a.toList).map Prod.fst = (code b.toList).map Prod.fst) :
    Option.Rel ParseError.Relaid (Source.ofText a file).refusal?
      (Source.ofText b file').refusal? := by
  have hdeep : ∀ t : Source, (∃ p ∈ t.brackets.settled, Program.maxNesting < p.level) ↔
      ∃ level ∈ t.brackets.settled.map Pair.level, Program.maxNesting < level := by simp
  obtain ⟨hlevel, hopen⟩ := matching_ofText a file
  obtain ⟨hlevel', hopen'⟩ := matching_ofText b file'
  rw [← h] at hlevel' hopen'
  have hleft := hopen.trans hopen'.symm
  rw [Source.refusal?, Source.refusal?]
  simp only [hdeep, hlevel, hlevel']
  split
  · exact .some .tooDeep
  · cases hu : (Source.ofText a file).brackets.leftmost? with
    | none =>
      rw [hleft.1 hu]
      exact .none
    | some u =>
      obtain ⟨u', hu'⟩ : ∃ u', (Source.ofText b file').brackets.leftmost? = some u' :=
        Option.ne_none_iff_exists'.1 fun hn => by
          rw [hleft.2 hn] at hu
          cases hu
      rw [hu']
      exact .some .notClosed

end Text

namespace Node

/-- All places are known. -/
def Located : List Node → Prop
  | [] => True
  | .op _ l :: rest => l.isSome ∧ Located rest
  | .loop _ body :: rest => Located body ∧ Located rest
  | .bare l :: rest => l.isSome ∧ Located rest

/-- Lists of one shape whose places are known differ in places only. -/
theorem SameShape.relaid {as bs : List Node} (h : SameShape as bs) (ha : Located as)
    (hb : Located bs) : Relaid as bs := by
  induction h with
  | nil => exact .nil
  | op _ ih =>
    rw [Located] at ha hb
    exact .op (ha.1.trans hb.1.symm) (ih ha.2 hb.2)
  | loop _ _ ihBody ihRest =>
    rw [Located] at ha hb
    exact .loop (ihBody ha.1 hb.1) (ihRest ha.2 hb.2)
  | bare _ ih =>
    rw [Located] at ha hb
    exact .bare (ha.1.trans hb.1.symm) (ih ha.2 hb.2)

end Node

/-- What tokens spell has its places from them. -/
theorem Spells.located {t : Source} {top : Bool} {i j : Nat} {ns : List Node}
    (h : Spells t top i j ns) : Node.Located ns := by
  induction h with
  | nil => rw [Node.Located]; trivial
  | op _ _ ih =>
    rw [Node.Located]
    exact ⟨rfl, ih⟩
  | pass _ _ ih | stray _ _ ih => exact ih
  | loop _ _ _ _ ihBody ihRest =>
    rw [Node.Located]
    exact ⟨ihBody, ihRest⟩

namespace Program

variable {a b file file' : String}

/-- Programs of texts with the same code differ in places only. -/
theorem relaid_of_code (h : (Text.code a.toList).map Prod.fst = (Text.code b.toList).map Prod.fst)
    {p q : Program} (hp : parse a file = .ok p) (hq : parse b file' = .ok q) :
    Node.Relaid p.statements q.statements := by
  obtain ⟨-, hps, -, -⟩ := ofSource_eq_ok_iff.1 hp
  obtain ⟨-, hqs, -, -⟩ := ofSource_eq_ok_iff.1 hq
  have hwritten : Node.written p.statements = Node.written q.statements := by
    rw [written_parse hp, h, ← written_parse hq]
  exact (Node.sameShape_of_written hps.plain hqs.plain hwritten).relaid hps.located hqs.located

/-- Texts with the same code are refused for the same reason, or are programs that differ in places
only. -/
inductive Relaid : Except ParseError Program → Except ParseError Program → Prop where
  | ok {p q : Program} (programs : Node.Relaid p.statements q.statements) :
      Relaid (.ok p) (.ok q)
  | error {e e' : ParseError} (errors : e.Relaid e') : Relaid (.error e) (.error e')

theorem parse_relaid (file file' : String)
    (h : (Text.code a.toList).map Prod.fst = (Text.code b.toList).map Prod.fst) :
    Relaid (parse a file) (parse b file') := by
  have ht : ∀ text name, (Source.ofText text name).tokens.size ≠ 0 := by
    intro text name
    rw [Text.size_ofText]
    exact Nat.succ_ne_zero _
  have href := Text.refusal?_of_code file file' h
  have hp := Source.ofSource_refusal _ (ht a file)
  have hq := Source.ofSource_refusal _ (ht b file')
  generalize (Source.ofText a file).refusal? = r at href hp
  generalize (Source.ofText b file').refusal? = r' at href hq
  cases href with
  | none =>
    obtain ⟨p, hp⟩ := hp
    obtain ⟨q, hq⟩ := hq
    have hrelaid := relaid_of_code h hp hq
    rw [parse, parse, hp, hq]
    exact .ok hrelaid
  | some he =>
    rw [parse, parse, show ofSource (Source.ofText a file) = _ from hp,
      show ofSource (Source.ofText b file') = _ from hq]
    exact .error he

end Program

/-! ## Runs -/

namespace Interp

variable {L : Type} [Listener L]

/-- Interpreters of texts with the same code run alike, in as many steps. -/
theorem Unplaced.run {s t : Interp L} (h : s.Unplaced t)
    (hcode : (Text.code s.source.toList).map Prod.fst = (Text.code t.source.toList).map Prod.fst)
    (tape : Tape) (fuel : Nat) : (s.run fuel tape).Relaid (t.run fuel tape) := by
  have hparse := Program.parse_relaid s.file t.file hcode
  rw [Interp.run, Interp.run, parse, parse]
  generalize Program.parse s.source s.file = r at hparse ⊢
  generalize Program.parse t.source t.file = r' at hparse ⊢
  cases hparse with
  | ok hp => exact h.runProgram hp tape fuel
  | error he => exact .unparsed he h.toRelaid

/-- Layout and commentary do not matter. Where two texts have the same code, either both are
refused, and for the same reason, or both are programs and their runs on the same tape, into sinks
that are alike, go on equally long and turn out alike: they differ in places and in what is named
after places, and in nothing else. -/
theorem run_layout (a b file file' : String) (sink : Sink) (tape : Tape)
    (h : (Text.code a.toList).map Prod.fst = (Text.code b.toList).map Prod.fst) :
    let s : Interp L := { source := a, file, sink }
    let t : Interp L := { source := b, file := file', sink }
    Program.Relaid s.parse t.parse ∧
      (∀ fuel, (s.run fuel tape).Relaid (t.run fuel tape)) ∧
      ((∃ v, s.EndsIn tape v) ↔ ∃ w, t.EndsIn tape w) ∧
      ∀ v w, s.EndsIn tape v → t.EndsIn tape w → v.Relaid w := by
  intro s t
  have hst : s.Unplaced t :=
    ⟨⟨rfl, .nil, rfl, rfl, .nil, rfl, rfl, rfl⟩, Hooks.placeless_empty⟩
  have hrun : ∀ fuel, (s.run fuel tape).Relaid (t.run fuel tape) := hst.run h tape
  refine ⟨Program.parse_relaid file file' h, hrun, ?_⟩
  refine ends_of_lockstep (fun _ => run_stable) (fun _ => run_stable) fun fuel => ?_
  by_cases hs : (s.run fuel tape).Settled
  · exact .inr ⟨hs, (hrun fuel).settled_iff.1 hs, hrun fuel⟩
  · exact .inl ⟨hs, fun ht => hs ((hrun fuel).settled_iff.2 ht)⟩

/-- A sink that takes nothing stops `.` on the first line and on the second, with the same words and
at the same instruction. -/
theorem run_layout_refused_write :
    let sink : Sink := .closing 0 (.failure (.named "OSError" "full"))
    let s : Interp Script := { source := ".", file := "a", sink }
    let t : Interp Script := { source := "write ]\n.", file := "b", sink }
    let tape : Tape := ⟨2, Vector.replicate 2 0, 1⟩
    (Text.code s.source.toList).map Prod.fst = (Text.code t.source.toList).map Prod.fst ∧
      (∃ f u, s.EndsIn tape (.stopped ⟨.fault f, u⟩) ∧
        f.message = "Internal interpreter error: full") ∧
      ∃ g v, t.EndsIn tape (.stopped ⟨.fault g, v⟩) ∧
        g.message = "Internal interpreter error: full" ∧ v.steps = 1 ∧
        v.stack.map (fun frame => frame.current.map Node.symbol) = [some "."] := by
  intro sink s t tape
  have hcode : (Text.code s.source.toList).map Prod.fst =
      (Text.code t.source.toList).map Prod.fst := by decide
  have hparse : ∃ l finish, s.parse = .ok ⟨[.op .output (some l)], finish⟩ := by
    have hsize : (Source.ofText "." "a").tokens.size - 1 = 1 := by decide
    have hspells : Spells (Source.ofText "." "a") true 0 1
        [.op .output (some ((Source.ofText "." "a").place 0))] := .op (by decide) (.nil true 1)
    exact ⟨_, _, Program.ofSource_eq_ok_iff.2
      ⟨by decide, hsize ▸ hspells, by simp [Node.depth], rfl⟩⟩
  have hrun : ∃ f u, s.run 2 tape = .stopped ⟨.fault f, u⟩ ∧
      f.message = "Internal interpreter error: full" ∧ u.steps = 1 ∧
      u.stack.map (fun frame => frame.current.map Node.symbol) = [some "."] := by
    obtain ⟨l, finish, hparse⟩ := hparse
    simp only [Interp.run, hparse, runProgram, begin_of_no_hooks (s := s) rfl, Config.advance,
      Config.step, Config.enter]
    have hquiet : ∀ u : Interp Script, u.hooks = #[] → ∀ n, u.announce n = .ok u :=
      fun _ hu n => announce_of_no_hooks hu n
    simp [announceBefore, hquiet, load, Config.perform, start, reach, operate, Interp.emit,
      Sink.closing, s, sink, report, raise, wrap, Failure.text]
    exact ⟨rfl, show Op.output.symbol.toString = "." by decide⟩
  obtain ⟨-, -, hends, hrelaid⟩ :=
    run_layout (L := Script) s.source t.source s.file t.file sink tape hcode
  obtain ⟨f, u, hrun, hmessage, hsteps, hsymbols⟩ := hrun
  have hs : s.EndsIn tape (.stopped ⟨.fault f, u⟩) := ⟨trivial, 2, hrun⟩
  obtain ⟨w, hw⟩ := hends.1 ⟨_, hs⟩
  refine ⟨hcode, ⟨f, u, hs, hmessage⟩, ?_⟩
  cases hrelaid _ w hs hw with
  | stopped hstop hstates =>
    cases hstop with
    | fault hf =>
      exact ⟨_, _, hw, hf.message.symm.trans hmessage, hstates.steps.symm.trans hsteps,
        hstates.symbols_eq.symm.trans hsymbols⟩

end Interp

end TapeLang
