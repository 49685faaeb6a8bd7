import TapeLang.Proofs.Kinship
import TapeLang.Proofs.Reading
import TapeLang.Script

/-!
# Cells that a run visits

A run looks at the cell under its pointer and changes no other. So it goes the same way on every
tape that has the same values in the cells that its pointer visits, and leaves all others as they
are. The length of the tape shows only where the pointer crosses the seam between the last cell and
the first: a run that never does goes the same way on tapes of any length that hold its cells.
-/

namespace TapeLang

/-! ## Tapes -/

namespace Tape

variable {visited : Nat → Prop} {t u before after : Tape}

/-- The same pointer, and the same values in the cells that are visited. -/
structure AgreesOn (visited : Nat → Prop) (t u : Tape) : Prop where
  pointer : t.pointer.val = u.pointer.val
  cell : ∀ i, visited i → t.cells[i]? = u.cells[i]?

/-- What has become of a tape `before` is different in visited cells at most. -/
structure AlteredOn (visited : Nat → Prop) (before after : Tape) : Prop where
  length : after.length = before.length
  cell : ∀ i, ¬visited i → after.cells[i]? = before.cells[i]?

theorem getElem?_pointer (t : Tape) : t.cells[t.pointer.val]? = some t.current :=
  Vector.getElem?_eq_getElem t.pointer.isLt

theorem getElem?_modify (f : UInt8 → UInt8) (t : Tape) (i : Nat) :
    (t.modify f).cells[i]? = if i = t.pointer.val then some (f t.current) else t.cells[i]? := by
  obtain ⟨n, cells, p⟩ := t
  split
  · next h =>
    subst h
    exact Vector.getElem?_set_self p.isLt
  · next h => exact Vector.getElem?_set_ne p.isLt (Ne.symm h)

namespace AgreesOn

theorem current_eq (h : t.AgreesOn visited u) (hp : visited t.pointer.val) :
    t.current = u.current := by
  have hcell := h.cell _ hp
  rw [getElem?_pointer, h.pointer, getElem?_pointer] at hcell
  exact Option.some.inj hcell

/-- The cell at the pointer is changed on both tapes. -/
theorem modify (h : t.AgreesOn visited u) (hp : visited t.pointer.val) (f : UInt8 → UInt8) :
    (t.modify f).AgreesOn visited (u.modify f) := by
  constructor
  · exact h.pointer
  · intro i hi
    rw [getElem?_modify, getElem?_modify, h.current_eq hp, h.pointer, h.cell i hi]

/-- A move to the left leads to the same cell, away from the seam or around tapes of one length. -/
theorem left (h : t.AgreesOn visited u) (hseam : t.length = u.length ∨ t.pointer.val ≠ 0) :
    t.left.AgreesOn visited u.left := by
  constructor
  · rw [val_left, val_left, ← h.pointer]
    split
    · next hz => rw [hseam.resolve_right (not_not_intro hz)]
    · rfl
  · exact h.cell

/-- A move to the right leads to the same cell, away from the seams or around tapes of one
length. -/
theorem right (h : t.AgreesOn visited u)
    (hseam : t.length = u.length ∨
      (t.pointer.val + 1 ≠ t.length ∧ t.pointer.val + 1 ≠ u.length)) :
    t.right.AgreesOn visited u.right := by
  constructor
  · rw [val_right, val_right, ← h.pointer]
    rcases hseam with hlength | ⟨ht, hu⟩
    · rw [← hlength]
    · rw [if_neg ht, if_neg hu]
  · exact h.cell

end AgreesOn

namespace AlteredOn

theorem refl (t : Tape) : AlteredOn visited t t := ⟨rfl, fun _ _ => rfl⟩

/-- Under a pointer at a visited cell no other cell is changed. -/
theorem modify (h : AlteredOn visited before after) (hp : visited after.pointer.val)
    (f : UInt8 → UInt8) : AlteredOn visited before (after.modify f) := by
  constructor
  · exact h.length
  · intro i hi
    have hne : i ≠ after.pointer.val := by
      rintro rfl
      exact hi hp
    rw [getElem?_modify, if_neg hne, h.cell i hi]

theorem left (h : AlteredOn visited before after) : AlteredOn visited before after.left :=
  ⟨h.length, h.cell⟩

theorem right (h : AlteredOn visited before after) : AlteredOn visited before after.right :=
  ⟨h.length, h.cell⟩

end AlteredOn

end Tape

/-- The statement that comes next moves the pointer over the seam of the tape: to the left from the
first cell, or to the right from the last one. -/
inductive Node.CrossesSeam (t : Tape) : List Node → Prop where
  | left {l : Option Location} {rest : List Node} (first : t.pointer.val = 0) :
      CrossesSeam t (.op .left l :: rest)
  | right {l : Option Location} {rest : List Node} (last : t.pointer.val + 1 = t.length) :
      CrossesSeam t (.op .right l :: rest)

/-! ## Side by side -/

variable {L : Type}

/-- A run is unfinished only while its program is under way. -/
theorem Progress.eq_running_of_verdict [Listener L] {r : Progress L} {c : Config L}
    (h : r.verdict = .unfinished c) : r = .running c := by
  have hover : ¬r.Settled := by
    intro hr
    have hv := settled_verdict.2 hr
    rw [h] at hv
    exact hv
  cases r with
  | running e => rw [Verdict.unfinished.inj h]
  | finished | halted => exact absurd trivial hover

namespace Interp

/-- Two interpreters that have got equally far, one on what has become of `tape`, the other on what
has become of `tape'`. They differ in their tapes alone, which agree on the visited cells and are
otherwise as they were. -/
structure Apart (visited : Nat → Prop) (tape tape' : Tape) (s s' : Interp L) : Prop where
  others : s' = { s with tape := s'.tape }
  tapes : ∃ t t', s.tape = some t ∧ s'.tape = some t' ∧ t.AgreesOn visited t' ∧
    tape.AlteredOn visited t ∧ tape'.AlteredOn visited t'

/-- Both go on the same way from here, with nobody to listen, no tape lent to them, and a sink that
does nothing worse than fail. -/
structure Treads (visited : Nat → Prop) (tape tape' : Tape) (s s' : Interp L) : Prop extends
    Apart visited tape tape' s s' where
  hooks : s.hooks = #[]
  bench : s.bench = none
  sink : s.sink.Ordinary

variable {visited : Nat → Prop} {tape tape' : Tape} {s s' : Interp L}

namespace Treads

theorem hooks' (h : Treads visited tape tape' s s') : s'.hooks = #[] := by
  rw [h.others]
  exact h.hooks

theorem start (h : Treads visited tape tape' s s') (n : Node) :
    Treads visited tape tape' (s.start n) (s'.start n) := by
  refine ⟨⟨?_, h.tapes⟩, h.hooks, h.bench, h.sink⟩
  rw [h.others]
  rfl

theorem push (h : Treads visited tape tape' s s') (f : Frame) :
    Treads visited tape tape' (s.push f) (s'.push f) := by
  refine ⟨⟨?_, h.tapes⟩, h.hooks, h.bench, h.sink⟩
  rw [h.others]
  rfl

theorem pop (h : Treads visited tape tape' s s') : Treads visited tape tape' s.pop s'.pop := by
  refine ⟨⟨?_, h.tapes⟩, h.hooks, h.bench, h.sink⟩
  rw [h.others]
  rfl

theorem bench' (h : Treads visited tape tape' s s') : s'.bench = none := by
  rw [h.others]
  exact h.bench

/-- What instructions see of a tape of the interpreter's own. -/
theorem cell_of_tape {t : Tape} (hb : s.bench = none) (ht : s.tape = some t) :
    s.cell = t.current := by
  rw [cell, work, hb, ht]
  rfl

/-- Instructions change the tape of the interpreter's own. -/
theorem alter_of_tape {t : Tape} (hb : s.bench = none) (ht : s.tape = some t) (f : Tape → Tape) :
    s.alter f = { s with tape := some (f t) } := by
  rw [alter, hb, ht]
  rfl

theorem cell_eq (h : Treads visited tape tape' s s')
    (hp : ∀ t, s.tape = some t → visited t.pointer.val) : s.cell = s'.cell := by
  obtain ⟨t, t', ht, ht', hagree, -, -⟩ := h.tapes
  rw [cell_of_tape h.bench ht, cell_of_tape h.bench' ht', hagree.current_eq (hp t ht)]

/-- The tapes are changed in the same way. -/
theorem alter (h : Treads visited tape tape' s s') {t t' : Tape} {f : Tape → Tape}
    (ht : s.tape = some t) (ht' : s'.tape = some t') (hagree : (f t).AgreesOn visited (f t'))
    (haltered : tape.AlteredOn visited (f t)) (haltered' : tape'.AlteredOn visited (f t')) :
    Treads visited tape tape' (s.alter f) (s'.alter f) := by
  rw [alter_of_tape h.bench ht, alter_of_tape h.bench' ht']
  refine ⟨⟨?_, f t, f t', rfl, rfl, hagree, haltered, haltered'⟩, h.hooks, h.bench, h.sink⟩
  rw [h.others]

end Treads

/-- Going the same way on what has become of two tapes. -/
def treading (visited : Nat → Prop) (tape tape' : Tape) : Kinship L where
  op o := o
  place := Eq
  count := Eq
  state := Treads visited tape tape'

/-- A run of the first interpreter comes to a visited cell, and on tapes of different lengths it
keeps off the seam and goes to visited cells only. -/
def Fits (visited : Nat → Prop) (tape tape' : Tape) (own : Option Tape) (rest : List Node) : Prop :=
  ∀ t, own = some t → visited t.pointer.val ∧
    (tape.length = tape'.length ∨ (¬Node.CrossesSeam t rest ∧
      ∀ l after, rest = .op .right l :: after → visited (t.pointer.val + 1)))

/-- An operation does the same. -/
theorem Treads.operate (h : Treads visited tape tape' s s') (o : Op) (l : Option Location)
    {rest : List Node} (hfits : Fits visited tape tape' s.tape (.op o l :: rest)) :
    (treading visited tape tape').Results (s.operate o l) (s'.operate o l) := by
  obtain ⟨t, t', ht, ht', hagree, haltered, haltered'⟩ := h.tapes
  obtain ⟨hp, hseam⟩ := hfits t ht
  have hp' : visited t'.pointer.val := hagree.pointer ▸ hp
  have hlength : tape.length = tape'.length → t.length = t'.length := by
    intro hlength
    rw [haltered.length, hlength, haltered'.length]
  cases o with
  | left =>
    have hseam : t.length = t'.length ∨ t.pointer.val ≠ 0 :=
      hseam.imp hlength fun hseam hz => hseam.1 (.left hz)
    exact .ok (h.alter ht ht' (hagree.left hseam) haltered.left haltered'.left)
  | right =>
    have hseam : t.length = t'.length ∨
        (t.pointer.val + 1 ≠ t.length ∧ t.pointer.val + 1 ≠ t'.length) := by
      refine hseam.imp hlength fun hseam => ?_
      have hlast : t.pointer.val + 1 ≠ t.length := fun hlast => hseam.1 (.right hlast)
      refine ⟨hlast, fun hlast' => ?_⟩
      -- the next cell is on the one tape, so it is on the other
      have hnext := hagree.cell _ (hseam.2 l rest rfl)
      have hin : t.pointer.val + 1 < t.length := by omega
      have hout : t'.cells[t.pointer.val + 1]? = none := Vector.getElem?_eq_none (by omega)
      rw [Vector.getElem?_eq_getElem hin, hout] at hnext
      cases hnext
    exact .ok (h.alter ht ht' (hagree.right hseam) haltered.right haltered'.right)
  | increment =>
    exact .ok (h.alter ht ht' (hagree.modify hp _) (haltered.modify hp _) (haltered'.modify hp' _))
  | decrement =>
    exact .ok (h.alter ht ht' (hagree.modify hp _) (haltered.modify hp _) (haltered'.modify hp' _))
  | output =>
    have hcell : s.cell = s'.cell := h.cell_eq fun t ht => (hfits t ht).1
    have hsink : s'.sink = s.sink := by rw [h.others]
    rw [Interp.operate, Interp.operate, ← hcell, emit, emit, hsink]
    cases hr : s.sink.refusal s.sink.calls with
    | none =>
      refine .ok ⟨⟨?_, h.tapes⟩, h.hooks, h.bench, h.sink⟩
      rw [h.others]
    | some stop =>
      obtain ⟨f, rfl⟩ := h.sink _ _ hr
      refine .error (.failure f) ⟨⟨?_, h.tapes⟩, h.hooks, h.bench, h.sink⟩
      rw [h.others]
  | input => exact .error (.fault ⟨rfl, rfl, rfl, rfl, rfl, .none⟩) h

/-- Execution goes the same way as long as it comes to visited cells. -/
theorem kept_treading (visited : Nat → Prop) (tape tape' : Tape) :
    (treading visited tape tape' : Kinship L).Kept (Fits visited tape tape') where
  hooks h := ⟨h.hooks, h.hooks'⟩
  steps h := by
    rw [h.others]
    rfl
  position h := by
    rw [h.others]
    rfl
  start h hn := by
    obtain rfl := (List.cons.inj (hn.eq (fun _ => rfl) fun _ _ => id)).1
    exact h.start _
  push h near := by
    obtain rfl := Option.some.inj near
    exact h.push _
  pop h := h.pop
  cell hfits h := h.cell_eq fun t ht => (hfits t ht).1
  operate hfits h near := by
    obtain rfl := near
    exact h.operate _ _ hfits

/-- At the start both tapes are as they were. -/
theorem treads_load (hs : s.hooks = #[]) (hk : s.sink.Ordinary) (h : tape.AgreesOn visited tape')
    (p : Program) : Treads visited tape tape' (s.load p tape) (s.load p tape') :=
  ⟨⟨rfl, tape, tape', rfl, rfl, h, .refl tape, .refl tape'⟩, hs, rfl, hk⟩

/-! ## Runs -/

/-- How runs on two tapes have turned out the same: neither has begun, or both have gone the same
way to the end, or to the same fault. -/
inductive EndsApart (visited : Nat → Prop) (tape tape' : Tape) : Verdict L → Verdict L → Prop where
  | unparsed (e : ParseError) (s : Interp L) :
      EndsApart visited tape tape' (.unparsed e s) (.unparsed e s)
  | finished {s s' : Interp L} (states : Apart visited tape tape' s s') :
      EndsApart visited tape tape' (.finished s) (.finished s')
  | stopped (f : Fault) {s s' : Interp L} (states : Apart visited tape tape' s s') :
      EndsApart visited tape tape' (.stopped ⟨.fault f, s⟩) (.stopped ⟨.fault f, s'⟩)

/-- From verdicts that are akin to the words of the statement. -/
theorem endsApart_of_verdicts {v w : Verdict L}
    (h : (treading visited tape tape').Verdicts v w) (hv : v.Settled) :
    EndsApart visited tape tape' v w := by
  cases h with
  | finished states => exact .finished states.toApart
  | unfinished => exact hv.elim
  | @stopped f g s t faults states =>
    have hplace : f.location = g.location := faults.place
    obtain rfl : g = f := by
      rw [faults.eq_with, ← hplace, faults.step_eq (k := id) fun _ _ => Eq.symm,
        Option.map_id_apply]
    exact .stopped g states.toApart

variable [Listener L]

/-- The cells that the pointer is at in the course of a run. -/
def Visits (s : Interp L) (tape : Tape) (i : Nat) : Prop :=
  ∃ fuel t, (s.run fuel tape).state.tape = some t ∧ t.pointer.val = i

/-- Somewhere in the course of a run the pointer crosses the seam of the tape. -/
def CrossesSeam (s : Interp L) (tape : Tape) : Prop :=
  ∃ fuel c t, s.run fuel tape = .unfinished c ∧ c.state.tape = some t ∧ Node.CrossesSeam t c.rest

/-- In the course of a run there is nobody to listen and no tape is lent. -/
theorem treads_runProgram (hs : s.hooks = #[]) (hk : s.sink.Ordinary) (p : Program) (tape : Tape)
    (fuel : Nat) :
    let t := (s.runProgram fuel p tape).state
    Treads (fun _ => True) tape tape t t := by
  have hrun := (kept_treading (L := L) (fun _ => True) tape tape).runProgram
    (treads_load hs hk ⟨rfl, fun _ _ => rfl⟩ p) (.refl (fun _ => rfl) (fun _ => rfl) _) fuel
    fun _ _ _ _ _ => ⟨trivial, .inl rfl⟩
  exact hrun.state

/-- A move to the right that is next leads to the cell behind, when that is not over the seam. -/
theorem visits_right (hs : s.hooks = #[]) (hk : s.sink.Ordinary) {p : Program}
    (hp : s.parse = .ok p) {fuel : Nat} {c : Config L} (hc : s.run fuel tape = .unfinished c)
    {t : Tape} (ht : c.state.tape = some t) (hlast : t.pointer.val + 1 ≠ t.length)
    {l : Option Location} {after : List Node}
    (hrest : c.rest = .op .right l :: after) : s.Visits tape (t.pointer.val + 1) := by
  refine ⟨fuel + 1, t.right, ?_, by rw [Tape.val_right, if_neg hlast]⟩
  have hstate := treads_runProgram hs hk p tape fuel
  have hprogram : s.runProgram fuel p tape = .unfinished c := by
    rw [← hc, run, hp]
  rw [hprogram] at hstate
  rw [run_of_begin hp (begin_untraced hs p tape)] at hc ⊢
  rw [Config.advance_succ (Progress.eq_running_of_verdict hc)]
  obtain ⟨u, rest, traced, loops⟩ := c
  obtain rfl : rest = .op .right l :: after := hrest
  have hooks : u.hooks = #[] := hstate.hooks
  have bench : (u.start (.op .right l)).bench = none := hstate.bench
  rw [Config.step_op hooks]
  exact congrArg Interp.tape (Treads.alter_of_tape bench ht Tape.right)

theorem fits_of_visits (hs : s.hooks = #[]) (hk : s.sink.Ordinary) {p : Program}
    (hp : s.parse = .ok p) (hseam : tape.length = tape'.length ∨ ¬s.CrossesSeam tape)
    {fuel : Nat} {c : Config L} (hc : s.runProgram fuel p tape = .unfinished c) :
    Fits (s.Visits tape) tape tape' c.state.tape c.rest := by
  have hrun : s.run fuel tape = .unfinished c := by
    rw [run, hp]
    exact hc
  intro t ht
  refine ⟨⟨fuel, t, by rw [hrun]; exact ht, rfl⟩, hseam.imp_right fun hseam => ?_⟩
  have hcross : ¬Node.CrossesSeam t c.rest := fun hcross => hseam ⟨fuel, c, t, hrun, ht, hcross⟩
  refine ⟨hcross, fun l after hrest => ?_⟩
  refine visits_right hs hk hp hrun ht (fun hlast => hcross ?_) hrest
  rw [hrest]
  exact .right hlast

/-- A run depends on the cells that its pointer visits, and touches no other. Take another tape with
the same pointer and the same values in those cells, and of the same length unless the pointer keeps
off the seam. The run on it ends exactly when the first one does, and it ends in the same way, with
the same count, output and pointer; the two tapes agree on the visited cells, and both keep their
own values in all the others. -/
theorem run_footprint (s : Interp L) (hs : s.hooks = #[]) (hk : s.sink.Ordinary)
    (tape tape' : Tape) (h : tape.AgreesOn (s.Visits tape) tape')
    (hseam : tape.length = tape'.length ∨ ¬s.CrossesSeam tape) :
    ((∃ v, s.EndsIn tape v) ↔ ∃ w, s.EndsIn tape' w) ∧
      ∀ v w, s.EndsIn tape v → s.EndsIn tape' w →
        EndsApart (s.Visits tape) tape tape' v w := by
  cases hp : s.parse with
  | error e =>
    have hrun : ∀ fuel tape, s.run fuel tape = .unparsed e s := by
      intro fuel tape
      rw [run, hp]
    refine ends_of_runs (fun fuel => ?_) fun fuel _ => ?_
    · rw [hrun, hrun]
    · rw [hrun, hrun]
      exact .unparsed e s
  | ok p =>
    have hrun : ∀ fuel, (treading (s.Visits tape) tape tape').Verdicts (s.run fuel tape)
        (s.run fuel tape') := by
      intro fuel
      rw [run, run, hp]
      exact (kept_treading _ tape tape').runProgram (treads_load hs hk h p)
        (.refl (fun _ => rfl) (fun _ => rfl) _) fuel fun _ _ => fits_of_visits hs hk hp hseam
    exact ends_of_runs (fun fuel => (hrun fuel).settled_iff) fun fuel =>
      endsApart_of_verdicts (hrun fuel)

/-- After a run of `>+` on three cells, one on four cells is known: it counts the second cell up and
leaves the others as they are. -/
theorem run_footprint_longer :
    let s : Interp Script := { source := ">+", file := "a" }
    let tape : Tape := ⟨3, #v[0, 0, 5], 0⟩
    let tape' : Tape := ⟨4, #v[0, 0, 7, 9], 0⟩
    s.hooks = #[] ∧ s.sink.Ordinary ∧ tape.AgreesOn (s.Visits tape) tape' ∧ ¬s.CrossesSeam tape ∧
      ∃ u t, s.EndsIn tape' (.finished u) ∧ u.steps = 2 ∧ u.tape = some t ∧ t.pointer.val = 1 ∧
        t.cells[1]? = some 1 ∧ t.cells[2]? = some 7 ∧ t.cells[3]? = some 9 := by
  intro s tape tape'
  have hparse : ∃ l l' finish,
      s.parse = .ok ⟨[.op .right (some l), .op .increment (some l')], finish⟩ := by
    have hspells : Spells (Source.ofText ">+" "a") true 0 2
        [.op .right (some ((Source.ofText ">+" "a").place 0)),
          .op .increment (some ((Source.ofText ">+" "a").place 1))] :=
      .op (by decide) (.op (by decide) (.nil true 2))
    exact ⟨_, _, Program.exists_parse_of_spells (by decide) hspells (by simp [Node.depth])⟩
  obtain ⟨l, l', finish, hparse⟩ := hparse
  let first : Node := .op .right (some l)
  let second : Node := .op .increment (some l')
  let s₀ := s.load ⟨[first, second], finish⟩ tape
  let s₁ := (s₀.start first).alter Tape.right
  let s₂ := (s₁.start second).alter (Tape.modify (· + 1))
  have hrun : ∀ fuel, s.run fuel tape =
      (Config.advance fuel ⟨s₀, [first, second], false, []⟩).verdict :=
    run_of_begin hparse (begin_untraced rfl _ tape)
  have hfirst (n : Nat) : Config.advance (n + 1) ⟨s₀, [first, second], false, []⟩ =
      Config.advance n ⟨s₁, [second], false, []⟩ := Config.advance_op rfl rfl n
  have hsecond (n : Nat) : Config.advance (n + 1) ⟨s₁, [second], false, []⟩ =
      Config.advance n ⟨s₂, [], false, []⟩ := Config.advance_op rfl rfl n
  have hfinished : ∀ n, s.run (n + 3) tape = .finished s₂.pop := by
    intro n
    rw [hrun, hfirst, hsecond]
    exact conclude_of_no_hooks rfl
  have hmoment : s.run 1 tape = .unfinished ⟨s₁, [second], false, []⟩ := by
    rw [hrun, hfirst]
    rfl
  have hmoments : ∀ fuel, s.run fuel tape = .unfinished ⟨s₀, [first, second], false, []⟩ ∨
      s.run fuel tape = .unfinished ⟨s₁, [second], false, []⟩ ∨
      s.run fuel tape = .unfinished ⟨s₂, [], false, []⟩ ∨ s.run fuel tape = .finished s₂.pop := by
    intro fuel
    rcases fuel with _ | _ | _ | n
    · exact .inl (hrun 0)
    · exact .inr (.inl hmoment)
    · refine .inr (.inr (.inl ?_))
      rw [hrun, hfirst, hsecond]
      rfl
    · exact .inr (.inr (.inr (hfinished n)))
  have hvisits : ∀ i, s.Visits tape i → i = 0 ∨ i = 1 := by
    rintro i ⟨fuel, t, ht, rfl⟩
    rcases hmoments fuel with h | h | h | h
    · rw [h] at ht
      cases ht
      exact .inl rfl
    all_goals
      rw [h] at ht
      cases ht
      exact .inr rfl
  have hcross : ¬s.CrossesSeam tape := by
    rintro ⟨fuel, c, t, hc, ht, hcross⟩
    rcases hmoments fuel with h | h | h | h
    · rw [h] at hc
      cases hc
      cases ht
      have hcross : Node.CrossesSeam tape [.op .right (some l), second] := hcross
      cases hcross with
      | right last => exact absurd last (by decide)
    · rw [h] at hc
      cases hc
      have hcross : Node.CrossesSeam t [.op .increment (some l')] := hcross
      cases hcross
    · rw [h] at hc
      cases hc
      cases hcross
    · rw [h] at hc
      cases hc
  have hagree : tape.AgreesOn (s.Visits tape) tape' := by
    refine ⟨rfl, fun i hi => ?_⟩
    rcases hvisits i hi with rfl | rfl
    · rfl
    · rfl
  have hend : s.EndsIn tape (.finished s₂.pop) := ⟨trivial, 3, hfinished 0⟩
  have hordinary : s.sink.Ordinary := Sink.open_default.ordinary
  obtain ⟨hends, hapart⟩ := run_footprint s rfl hordinary tape tape' hagree (.inr hcross)
  obtain ⟨w, hw⟩ := hends.1 ⟨_, hend⟩
  refine ⟨rfl, hordinary, hagree, hcross, ?_⟩
  cases hapart _ w hend hw with
  | finished states =>
    obtain ⟨t, t', ht, ht', hagree', -, haltered⟩ := states.tapes
    cases ht
    have hsecond : s.Visits tape 1 := ⟨1, _, by rw [hmoment]; rfl, rfl⟩
    have hoff : ∀ i, 1 < i → ¬s.Visits tape i := by
      intro i hi hv
      have := hvisits i hv
      omega
    refine ⟨_, t', hw, ?_, ht', hagree'.pointer.symm, (hagree'.cell 1 hsecond).symm,
      haltered.cell 2 (hoff 2 (by decide)), haltered.cell 3 (hoff 3 (by decide))⟩
    rw [states.others]
    rfl

end Interp

end TapeLang
