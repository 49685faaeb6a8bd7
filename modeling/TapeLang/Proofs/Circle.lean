import Mathlib.Data.Int.ModEq
import TapeLang.Proofs.Kinship
import TapeLang.Proofs.Evaluation
import TapeLang.Proofs.Mirror

/-!
# The circle of cells

No cell of a tape is special. A run cannot tell a tape from the same tape with its cells numbered
from another one on, nor, with `<` and `>` exchanged in its text, from the tape seen from the other
side: moves add one to the pointer or take one from it, counted around the ring, and every symmetry
of the ring respects that.
-/

namespace TapeLang

/-- A symmetry of a circle of cells. -/
inductive Symmetry where
  /-- The cell at `i` goes to `i + k`. -/
  | rotation (k : Int)
  /-- The cell at `i` goes to `k - i`. -/
  | reflection (k : Int)

/-! ## Tapes -/

namespace Symmetry

/-- Where the cell at an index goes, to be counted around the ring. -/
def index : Symmetry → Int → Int
  | .rotation k, i => i + k
  | .reflection k, i => k - i

/-- A thing as it is on the side that a symmetry leads to: as before for a rotation, and mirrored
for a reflection. -/
def seen {α : Type} (g : Symmetry) (mirror : α → α) (a : α) : α :=
  match g with
  | .rotation _ => a
  | .reflection _ => mirror a

@[simp] theorem seen_rotation {α : Type} (k : Int) (mirror : α → α) :
    (rotation k).seen mirror = id := rfl

@[simp] theorem seen_reflection {α : Type} (k : Int) (mirror : α → α) :
    (reflection k).seen mirror = mirror := rfl

/-- The symmetry that leads back. -/
def inverse : Symmetry → Symmetry
  | .rotation k => .rotation (-k)
  | .reflection k => .reflection k

@[simp] theorem inverse_index (g : Symmetry) (i : Int) : g.inverse.index (g.index i) = i := by
  cases g <;> simp only [inverse, index] <;> omega

@[simp] theorem index_inverse (g : Symmetry) (i : Int) : g.index (g.inverse.index i) = i := by
  cases g <;> simp only [inverse, index] <;> omega

/-- Indices of one cell go to indices of one cell. -/
theorem index_modEq (g : Symmetry) {n i j : Int} (h : i ≡ j [ZMOD n]) :
    g.index i ≡ g.index j [ZMOD n] := by
  cases g with
  | rotation k => exact h.add_right k
  | reflection k => exact Int.ModEq.sub_left k h

end Symmetry

namespace Tape

/-- A tape whose cells and pointer have been carried over by a symmetry. -/
def carry (g : Symmetry) (t : Tape) : Tape where
  length := t.length
  cells := Vector.ofFn fun j => t.around (g.inverse.index j.val)
  pointer := t.spot (g.index t.pointer.val)

/-- Move the pointer by a number of cells, to the left if it is negative. -/
def move (k : Int) (t : Tape) : Tape := { t with pointer := t.spot (t.pointer.val + k) }

variable (t : Tape) (g : Symmetry)

theorem val_spot (i : Int) : ((t.spot i).val : Int) = i % t.length := by
  have hpos := t.length_pos
  exact Int.toNat_of_nonneg (Int.emod_nonneg i (by omega))

/-- Indices lead to one cell exactly when they differ by laps. -/
theorem spot_eq_iff {i j : Int} : t.spot i = t.spot j ↔ i ≡ j [ZMOD t.length] := by
  rw [Fin.ext_iff, ← Int.natCast_inj, val_spot, val_spot, Int.ModEq]

theorem spot_modEq (i : Int) : ((t.spot i).val : Int) ≡ i [ZMOD t.length] := by
  rw [val_spot]
  exact Int.mod_modEq i t.length

/-- A cell is where its own index leads. -/
theorem spot_val (i : Fin t.length) : t.spot i.val = i := by
  rw [Fin.ext_iff, ← Int.natCast_inj, val_spot]
  exact Int.emod_eq_of_lt (Int.natCast_nonneg _) (Int.ofNat_lt.2 i.isLt)

theorem around_congr {i j : Int} (h : t.spot i = t.spot j) : t.around i = t.around j :=
  congrArg (fun p : Fin t.length => t.cells[p.val]) h

theorem around_val (i : Fin t.length) : t.around i.val = t.cells.get i :=
  congrArg t.cells.get (t.spot_val i)

/-- A tape is its length, its pointer and its cells. -/
theorem ext_around {t u : Tape} (hlength : t.length = u.length)
    (hpointer : t.pointer.val = u.pointer.val) (h : ∀ i, t.around i = u.around i) : t = u := by
  have hcells : ∀ i : Fin t.length, t.cells.get i = u.cells.get (i.cast hlength) := by
    intro i
    rw [← around_val, ← around_val, h]
    rfl
  obtain ⟨n, cells, p⟩ := t
  obtain ⟨m, cells', p'⟩ := u
  obtain rfl : n = m := hlength
  obtain rfl : p = p' := Fin.ext hpointer
  refine congrArg (fun cells => Tape.mk n cells p) ?_
  apply Vector.ext
  intro i hi
  exact hcells ⟨i, hi⟩

theorem around_modify (f : UInt8 → UInt8) (i : Int) :
    (t.modify f).around i = if t.spot i = t.pointer then f t.current else t.around i := by
  obtain ⟨n, cells, p⟩ := t
  simp only [around, modify, Vector.getElem_set, Fin.ext_iff, current, eq_comm (a := p.val)]
  rfl

/-- A move to the right adds one to the pointer, around the ring. -/
theorem right_eq : t.right = t.move 1 := by
  obtain ⟨n, cells, p⟩ := t
  refine congrArg (Tape.mk n cells) ?_
  rw [Fin.ext_iff, ← Int.natCast_inj, val_spot]
  exact Int.natCast_emod _ _

/-- A move to the left takes one from the pointer, around the ring. -/
theorem left_eq : t.left = t.move (-1) := by
  obtain ⟨n, cells, p⟩ := t
  have hpos := p.pos
  refine congrArg (Tape.mk n cells) ?_
  rw [Fin.ext_iff, ← Int.natCast_inj, val_spot]
  have hlap : ((p.val + (n - 1) : Nat) : Int) = p.val + -1 + n := by omega
  exact (Int.natCast_emod _ _).trans (by rw [hlap, Int.add_emod_right])

/-- The cell at an index has gone to its image. -/
theorem around_carry (i : Int) : (t.carry g).around (g.index i) = t.around i := by
  have hcell : (t.carry g).around (g.index i) =
      t.around (g.inverse.index (t.spot (g.index i)).val) := by
    simp only [around, carry, Vector.getElem_ofFn]
    rfl
  have hback := g.inverse.index_modEq (t.spot_modEq (g.index i))
  rw [Symmetry.inverse_index] at hback
  rw [hcell, t.around_congr (t.spot_eq_iff.2 hback)]

example :
    (carry (.rotation 1) ⟨3, #v[7, 0, 5], 2⟩).cells.toList = [5, 7, 0] ∧
      (carry (.reflection 1) ⟨3, #v[7, 0, 5], 2⟩).cells.toList = [0, 7, 5] := by
  decide

/-- The pointer has gone with its cell. -/
@[simp] theorem current_carry : (t.carry g).current = t.current := by
  have h : (t.carry g).spot (g.index t.pointer.val) = (t.carry g).pointer := rfl
  rw [← around_pointer t, ← t.around_carry g, around, current]
  exact congrArg (fun i : Fin t.length => (t.carry g).cells[i.val]) h.symm

/-- Different cells go to different cells. -/
theorem spot_index_iff {i j : Int} :
    t.spot (g.index i) = t.spot (g.index j) ↔ t.spot i = t.spot j := by
  rw [spot_eq_iff, spot_eq_iff]
  constructor
  · intro h
    simpa using g.inverse.index_modEq h
  · intro h
    exact g.index_modEq h

/-- Changing the current cell changes the cell that it has gone to. -/
theorem carry_modify (f : UInt8 → UInt8) : (t.modify f).carry g = (t.carry g).modify f := by
  refine ext_around ?_ ?_ ?_
  · rfl
  · rfl
  · intro i
    have hspot := t.spot_index_iff g (i := g.inverse.index i) (j := t.pointer.val)
    rw [spot_val] at hspot
    rw [← g.index_inverse i, around_carry, around_modify, around_modify, around_carry,
      current_carry]
    exact if_congr hspot.symm rfl rfl

/-- A rotation keeps the direction of a move, and a reflection turns it. -/
theorem carry_move (k : Int) : (t.move k).carry g = (t.carry g).move (g.seen Neg.neg k) := by
  have hspot : t.spot (g.index (t.spot (t.pointer.val + k)).val) =
      t.spot ((t.spot (g.index t.pointer.val)).val + g.seen Neg.neg k) := by
    have hsum : g.index t.pointer.val + g.seen Neg.neg k = g.index (t.pointer.val + k) := by
      cases g <;> simp only [Symmetry.index, Symmetry.seen] <;> omega
    rw [spot_eq_iff]
    refine (g.index_modEq (t.spot_modEq _)).trans ?_
    rw [← hsum]
    exact ((t.spot_modEq _).add_right _).symm
  exact congrArg (fun p : Fin t.length => { t.carry g with pointer := p }) hspot

theorem carry_left : t.left.carry g = (t.carry g).move (g.seen Neg.neg (-1)) := by
  rw [left_eq, carry_move]

theorem carry_right : t.right.carry g = (t.carry g).move (g.seen Neg.neg 1) := by
  rw [right_eq, carry_move]

end Tape

/-! ## Interpreters -/

namespace Symmetry

/-- A frame for the carried tape: only the text of its places differs. -/
def frame (g : Symmetry) (f : Frame) : Frame :=
  ⟨f.name, f.home.map (g.seen Location.mirror), f.current.map (g.seen Node.mirror)⟩

/-- A fault in a run on the carried tape: only the text of its place differs. -/
def fault (g : Symmetry) (f : Fault) : Fault :=
  { f with location := f.location.map (g.seen Location.mirror) }

end Symmetry

variable {L : Type}

/-- An interpreter whose text and tapes have been carried over by a symmetry. -/
def Interp.carry (g : Symmetry) (s : Interp L) : Interp L :=
  { s with
    source := g.seen Text.mirror s.source
    stack := s.stack.map g.frame
    tape := s.tape.map (Tape.carry g)
    bench := s.bench.map (Tape.carry g)
    program := s.program.map (g.seen Node.mirror) }

/-- A run has turned out as the carried one: with the same count, output and ending, and with the
same tape, carried over. -/
inductive Symmetry.Carries (g : Symmetry) : Verdict L → Verdict L → Prop where
  | unparsed (e : ParseError) (s : Interp L) : Carries g (.unparsed e s) (.unparsed e (s.carry g))
  | finished (s : Interp L) : Carries g (.finished s) (.finished (s.carry g))
  | stopped (f : Fault) (s : Interp L) :
      Carries g (.stopped ⟨.fault f, s⟩) (.stopped ⟨.fault (g.fault f), s.carry g⟩)

namespace Interp

variable (g : Symmetry) (s : Interp L)

theorem frame_ofLoop (l : Location) :
    g.frame (Frame.ofLoop l) = Frame.ofLoop (g.seen Location.mirror l) := by
  cases g <;> rfl

theorem seen_op (o : Op) (l : Option Location) :
    g.seen Node.mirror (.op o l) = .op (g.seen Op.mirror o) (l.map (g.seen Location.mirror)) := by
  cases g <;> simp [Node.mirror]

theorem seen_loop (l : Location) (body : List Node) :
    g.seen Node.mirror (.loop l body) =
      .loop (g.seen Location.mirror l) (body.map (g.seen Node.mirror)) := by
  cases g <;> simp [Node.mirror]

theorem seen_bare (l : Option Location) :
    g.seen Node.mirror (.bare l) = .bare (l.map (g.seen Location.mirror)) := by
  cases g <;> simp [Node.mirror]

theorem location_seen (n : Node) :
    (g.seen Node.mirror n).location = n.location.map (g.seen Location.mirror) := by
  cases n with
  | op o l => rw [seen_op, Node.location, Node.location]
  | loop l body => rw [seen_loop, Node.location, Node.location, Option.map_some]
  | bare l => rw [seen_bare, Node.location, Node.location]

theorem position_carry : (s.carry g).position = s.position.map (g.seen Location.mirror) := by
  have hframe (f : Frame) : (g.frame f).position = f.position.map (g.seen Location.mirror) := by
    obtain ⟨name, home, current⟩ := f
    cases current with
    | none => rfl
    | some n => exact location_seen g n
  rw [position, position, carry]
  cases s.stack with
  | nil => rfl
  | cons f rest => exact hframe f

theorem carry_start (n : Node) :
    (s.start n).carry g = (s.carry g).start (g.seen Node.mirror n) := by
  obtain ⟨source, file, steps, stack, tape, bench, program, hooks, sink, reports, journal⟩ := s
  cases stack <;> rfl

theorem carry_push (l : Location) :
    (s.push (Frame.ofLoop l)).carry g =
      (s.carry g).push (Frame.ofLoop (g.seen Location.mirror l)) := by
  rw [← frame_ofLoop]
  rfl

theorem carry_pop : s.pop.carry g = (s.carry g).pop := by
  simp only [pop, carry, List.map_tail]

theorem cell_carry : (s.carry g).cell = s.cell := by
  obtain ⟨source, file, steps, stack, tape, bench, program, hooks, sink, reports, journal⟩ := s
  cases bench with
  | some t => exact t.current_carry g
  | none =>
    cases tape with
    | some t => exact t.current_carry g
    | none => rfl

/-- What is done to the tape is done to the carried tape, in the way that suits it. -/
theorem carry_alter {f f' : Tape → Tape} (h : ∀ t, (f t).carry g = f' (t.carry g)) :
    (s.alter f).carry g = (s.carry g).alter f' := by
  obtain ⟨source, file, steps, stack, tape, bench, program, hooks, sink, reports, journal⟩ := s
  cases bench with
  | some t => simp [alter, carry, h]
  | none =>
    cases tape with
    | some t => simp [alter, carry, h]
    | none => rfl

/-! ## Runs -/

/-- Being carried over by a symmetry, with nobody to listen and a sink that does nothing worse than
fail. -/
def carrying (g : Symmetry) : Kinship L where
  op := g.seen Op.mirror
  place l l' := l' = l.map (g.seen Location.mirror)
  count := Eq
  state s t := s.hooks = #[] ∧ s.sink.Ordinary ∧ t = s.carry g

/-- Statements correspond to the ones that the other side has in their place. -/
theorem nodes_carrying_iff {as bs : List Node} :
    (carrying g : Kinship L).Nodes as bs ↔ bs = as.map (g.seen Node.mirror) := by
  constructor
  · intro h
    induction h with
    | nil => rfl
    | op near _ ih => rw [List.map_cons, seen_op, ← ih, show _ = _ from near]; rfl
    | loop near _ _ ihBody ihRest =>
      rw [List.map_cons, seen_loop, ← ihBody, ← ihRest, Option.some.inj near]
    | bare near _ ih => rw [List.map_cons, seen_bare, ← ih, show _ = _ from near]
  · rintro rfl
    fun_induction Node.written as with
    | case1 => exact .nil
    | case2 o l rest ih =>
      rw [List.map_cons, seen_op]
      exact .op rfl ih
    | case3 l body rest ihBody ihRest =>
      rw [List.map_cons, seen_loop]
      exact .loop rfl ihBody ihRest
    | case4 l rest ih =>
      rw [List.map_cons, seen_bare]
      exact .bare rfl ih

/-- Writing leaves the tapes alone. -/
theorem emit_carry (hs : s.hooks = #[]) (hk : s.sink.Ordinary) (text : String) :
    (carrying g).Results (s.emit text) ((s.carry g).emit text) := by
  have hsink : (s.carry g).sink = s.sink := rfl
  rw [emit, emit, hsink]
  cases hr : s.sink.refusal s.sink.calls with
  | none => exact .ok ⟨hs, hk.of_refusal_eq rfl, rfl⟩
  | some stop =>
    obtain ⟨f, rfl⟩ := hk _ _ hr
    exact .error (.failure f) ⟨hs, hk.of_refusal_eq rfl, rfl⟩

/-- An operation does to the carried tape what it does to the tape, carried over. -/
theorem carry_operate (hs : s.hooks = #[]) (hk : s.sink.Ordinary) (o : Op) (l : Option Location) :
    (carrying g).Results (s.operate o l)
      ((s.carry g).operate (g.seen Op.mirror o) (l.map (g.seen Location.mirror))) := by
  have halter {f f' : Tape → Tape} (h : ∀ t, (f t).carry g = f' (t.carry g)) :
      (carrying g).Results (.ok (s.alter f)) (.ok ((s.carry g).alter f')) := by
    have halter : (s.alter f).hooks = s.hooks ∧ (s.alter f).sink = s.sink := by
      rw [alter]
      split <;> exact ⟨rfl, rfl⟩
    exact .ok ⟨halter.1.trans hs, halter.2 ▸ hk, (carry_alter g s h).symm⟩
  have hsame {o : Op} (h : o.mirror = o) : g.seen Op.mirror o = o := by
    cases g with
    | rotation k => rfl
    | reflection k => exact h
  cases o with
  | left =>
    cases g with
    | rotation k => exact halter fun t => (t.carry_left _).trans (Tape.left_eq _).symm
    | reflection k => exact halter fun t => (t.carry_left _).trans (Tape.right_eq _).symm
  | right =>
    cases g with
    | rotation k => exact halter fun t => (t.carry_right _).trans (Tape.right_eq _).symm
    | reflection k => exact halter fun t => (t.carry_right _).trans (Tape.left_eq _).symm
  | increment =>
    rw [hsame rfl]
    exact halter fun t => t.carry_modify g _
  | decrement =>
    rw [hsame rfl]
    exact halter fun t => t.carry_modify g _
  | output =>
    rw [hsame rfl, operate, operate, cell_carry]
    exact emit_carry g s hs hk _
  | input =>
    rw [hsame rfl]
    exact .error (.fault ⟨rfl, rfl, rfl, rfl, rfl, .none⟩) ⟨hs, hk, rfl⟩

/-- Execution goes on for the carried tape as for the tape. -/
theorem kept_carrying : (carrying g : Kinship L).Kept fun _ _ => True where
  hooks := by
    rintro s t ⟨hs, -, rfl⟩
    exact ⟨hs, hs⟩
  steps := by
    rintro s t ⟨-, -, rfl⟩
    rfl
  position := by
    rintro s t ⟨-, -, rfl⟩
    exact position_carry g s
  start := by
    rintro s t n n' ⟨hs, hk, rfl⟩ hn
    obtain rfl := (List.cons.inj ((nodes_carrying_iff g).1 hn)).1
    exact ⟨hs, hk, (carry_start g s n).symm⟩
  push := by
    rintro s t l l' ⟨hs, hk, rfl⟩ near
    obtain rfl := Option.some.inj near
    exact ⟨hs, hk, (carry_push g s l).symm⟩
  pop := by
    rintro s t ⟨hs, hk, rfl⟩
    exact ⟨hs, hk, (carry_pop g s).symm⟩
  cell := by
    rintro s t rest - ⟨-, -, rfl⟩
    exact (cell_carry g s).symm
  operate := by
    rintro s t o l l' rest - ⟨hs, hk, rfl⟩ near
    obtain rfl : l' = l.map (g.seen Location.mirror) := near
    exact carry_operate g s hs hk o l

/-- From verdicts that are akin to the words of the statement. -/
theorem carries_of_verdicts {v w : Verdict L} (h : (carrying g).Verdicts v w) (hv : v.Settled) :
    g.Carries v w := by
  cases h with
  | finished states =>
    rw [states.2.2]
    exact .finished _
  | unfinished => exact hv.elim
  | @stopped f f' s t faults states =>
    have hplace : f'.location = f.location.map (g.seen Location.mirror) := faults.place
    have hf : f' = g.fault f := by
      rw [faults.eq_with, hplace, faults.step_eq (k := id) fun _ _ => Eq.symm, Option.map_id_apply]
      rfl
    rw [states.2.2, hf]
    exact .stopped f s

/-- The text for the carried tape is read as the text is, up to the side it is seen from. -/
theorem parse_carry :
    (s.carry g).parse = s.parse.map fun p =>
      ⟨p.statements.map (g.seen Node.mirror), g.seen Location.mirror p.finish⟩ := by
  cases g with
  | rotation k =>
    have hparse : (s.carry (.rotation k)).parse = s.parse := rfl
    rw [hparse]
    cases s.parse with
    | error e => rfl
    | ok p => simp [Except.map]
  | reflection k => exact Program.parse_mirror s.source s.file

variable [Listener L]

/-- Without listeners, runs on a tape and on the carried tape are over together, and they turn out
alike. -/
theorem run_carry (hs : s.hooks = #[]) (hk : s.sink.Ordinary) (tape : Tape) (fuel : Nat) :
    ((s.run fuel tape).Settled ↔ ((s.carry g).run fuel (tape.carry g)).Settled) ∧
      ((s.run fuel tape).Settled →
        g.Carries (s.run fuel tape) ((s.carry g).run fuel (tape.carry g))) := by
  rw [run, run, parse_carry]
  cases s.parse with
  | error e => exact ⟨Iff.rfl, fun _ => .unparsed e s⟩
  | ok p =>
    have hload : (carrying g).state (s.load p tape)
        ((s.carry g).load ⟨p.statements.map (g.seen Node.mirror), g.seen Location.mirror p.finish⟩
          (tape.carry g)) := ⟨hs, hk, rfl⟩
    have hrun := (kept_carrying g).runProgram hload ((nodes_carrying_iff g).2 rfl) fuel
      fun _ _ _ => trivial
    exact ⟨hrun.settled_iff, carries_of_verdicts g hrun⟩

/-- The tape is a true circle. Let the cells and the pointer of a tape be carried over by a rotation
or a reflection of the indices, and `<` and `>` be exchanged in the text for a reflection. Then the
run on the carried tape ends exactly when the run on the tape does, with the same count, the same
output and the same success or failure, and its tape is the tape of that run, carried over. -/
theorem run_carried (source file : String) (sink : Sink) (hk : sink.Ordinary) (tape : Tape) :
    let s : Interp L := { source, file, sink }
    let t : Interp L := { source := g.seen Text.mirror source, file, sink }
    ((∃ v, s.EndsIn tape v) ↔ ∃ w, t.EndsIn (tape.carry g) w) ∧
      ∀ v w, s.EndsIn tape v → t.EndsIn (tape.carry g) w → g.Carries v w := by
  intro s t
  have hrun := run_carry g s rfl hk tape
  exact ends_of_runs (fun fuel => (hrun fuel).1) fun fuel => (hrun fuel).2

open Evaluation in
/-- On three cells `+<+.` crosses from the first cell to the last one. Seen from the other side,
`+>+.` goes from the second cell to the last one, and leaves the same tape seen from there. -/
theorem run_carried_reflected :
    let s : Interp Script := { source := "+<+.", file := "a" }
    let t : Interp Script := { source := "+>+.", file := "a" }
    let g : Symmetry := .reflection 1
    let tape : Tape := ⟨3, #v[0, 0, 0], 0⟩
    s.sink.Ordinary ∧ tape.carry g = ⟨3, #v[0, 0, 0], 1⟩ ∧
      ∃ v w, s.EndsIn tape v ∧ t.EndsIn (tape.carry g) w ∧ g.Carries v w ∧
        v.state.tape = some ⟨3, #v[1, 0, 1], 2⟩ ∧ w.state.tape = some ⟨3, #v[0, 1, 1], 2⟩ := by
  intro s t g tape
  have hordinary : s.sink.Ordinary := Sink.open_default.ordinary
  have hcarry : tape.carry g = ⟨3, #v[0, 0, 0], 1⟩ := by rfl
  have htokens : Source.ofText "+<+." "a" =
      ⟨#[⟨.op .increment, 1, 1⟩, ⟨.op .left, 1, 2⟩, ⟨.op .increment, 1, 3⟩, ⟨.op .output, 1, 4⟩,
        ⟨.finish, 1, 5⟩], "a", #["+<+."]⟩ := rfl
  have htokens' : Source.ofText "+>+." "a" =
      ⟨#[⟨.op .increment, 1, 1⟩, ⟨.op .right, 1, 2⟩, ⟨.op .increment, 1, 3⟩, ⟨.op .output, 1, 4⟩,
        ⟨.finish, 1, 5⟩], "a", #["+>+."]⟩ := rfl
  have hends : s.EndsIn tape (s.run 5 tape) := ⟨by simp [s, tape, htokens, Verdict.Settled], 5, rfl⟩
  have htape : (s.run 5 tape).state.tape = some ⟨3, #v[1, 0, 1], 2⟩ := by
    simp [s, tape, htokens, Verdict.state]
  have htape' : (t.run 5 (tape.carry g)).state.tape = some ⟨3, #v[0, 1, 1], 2⟩ := by
    rw [hcarry]
    simp [t, htokens', Verdict.state]
  have hmirror : g.seen Text.mirror "+<+." = "+>+." := by decide
  obtain ⟨hiff, hcarries⟩ := run_carried (L := Script) g "+<+." "a" {} hordinary tape
  rw [hmirror] at hiff hcarries
  obtain ⟨w, hw⟩ := hiff.1 ⟨_, hends⟩
  have hover : t.EndsIn (tape.carry g) (t.run 5 (tape.carry g)) :=
    ⟨by simp [t, hcarry, htokens', Verdict.Settled], 5, rfl⟩
  obtain rfl := hw.unique hover
  exact ⟨hordinary, hcarry, _, _, hends, hw, hcarries _ _ hends hw, htape, htape'⟩

end Interp

end TapeLang
