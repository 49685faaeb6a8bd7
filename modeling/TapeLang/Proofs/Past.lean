import TapeLang.Proofs.Kinship
import TapeLang.Proofs.Reading
import TapeLang.Script

/-!
# Interpreters with a past

What was done with an interpreter before leaves its marks: frames of loops that were being executed
when a run failed, an old tape, a count of instructions, a text in the sink. None of them has a part
in the next run. Without listeners, and with a sink that takes everything, a run on a tape of its
own is the run of a new interpreter, with the count and the text put behind those of the past.
-/

namespace TapeLang

variable {L : Type}

/-- Something that can be done with an interpreter. The number of steps that goes with an execution
may cut it short. -/
inductive Deed where
  /-- Run the text on a tape. -/
  | run (fuel : Nat) (tape : Tape)
  /-- Execute statements directly, a number of times over, on a tape that is lent or on the
  interpreter's own. One that has no tape works on a zeroed one. -/
  | execute (fuel : Nat) (lent : Option Tape) (nodes : List Node) (times : Nat)
  /-- Put a frame on the call stack. -/
  | push (frame : Frame)
  /-- Replace the text. -/
  | replace (source : String)

namespace Interp

/-- Nobody listens, and the sink takes everything. -/
structure Free (s : Interp L) : Prop where
  hooks : s.hooks = #[]
  sink : s.sink.Open

/-- The interpreter `t` is as far as `s`, having counted and written before what `before` has. -/
structure Since (before s t : Interp L) : Prop where
  steps : t.steps = before.steps + s.steps
  text : t.sink.text = before.sink.text ++ s.sink.text
  stack : t.stack = s.stack
  tape : t.tape = s.tape

/-- Both go on the same way from here. -/
structure Abreast (before s t : Interp L) : Prop extends before.Since s t where
  bench : t.bench = s.bench
  free : s.Free
  free' : t.Free

/-- Behind what was done `before`, a run has turned out as another one: it has finished, or stopped
with the same fault, noted with the count that goes on from before. -/
inductive Repeats (before : Interp L) : Verdict L → Verdict L → Prop where
  | finished {s t : Interp L} (states : before.Since s t) :
      Repeats before (.finished s) (.finished t)
  | stopped {f : Fault} {s t : Interp L} (states : before.Since s t) :
      Repeats before (.stopped ⟨.fault f, s⟩)
        (.stopped ⟨.fault { f with step := f.step.map (before.steps + ·) }, t⟩)

/-! ## Side by side -/

namespace Abreast

variable {before s t : Interp L}

/-- An interpreter is abreast with itself, behind one that has done nothing. -/
theorem refl (h : s.Free) : Abreast {} s s :=
  ⟨⟨(Nat.zero_add _).symm, String.empty_append.symm, rfl, rfl⟩, rfl, h, h⟩

theorem position_eq (h : before.Abreast s t) : t.position = s.position := by
  rw [position, position, h.stack]

theorem cell_eq (h : before.Abreast s t) : t.cell = s.cell := by
  rw [cell, cell, work, work, h.tape, h.bench]

theorem start (h : before.Abreast s t) (n : Node) : before.Abreast (s.start n) (t.start n) := by
  refine ⟨⟨congrArg (· + 1) h.steps, h.text, ?_, h.tape⟩, h.bench, ⟨h.free.hooks, h.free.sink⟩,
    ⟨h.free'.hooks, h.free'.sink⟩⟩
  simp only [Interp.start, reach, h.stack]

theorem push (h : before.Abreast s t) (f : Frame) : before.Abreast (s.push f) (t.push f) :=
  ⟨⟨h.steps, h.text, congrArg (f :: ·) h.stack, h.tape⟩, h.bench, ⟨h.free.hooks, h.free.sink⟩,
    ⟨h.free'.hooks, h.free'.sink⟩⟩

theorem pop (h : before.Abreast s t) : before.Abreast s.pop t.pop :=
  ⟨⟨h.steps, h.text, congrArg List.tail h.stack, h.tape⟩, h.bench, ⟨h.free.hooks, h.free.sink⟩,
    ⟨h.free'.hooks, h.free'.sink⟩⟩

theorem alter (h : before.Abreast s t) (f : Tape → Tape) :
    before.Abreast (s.alter f) (t.alter f) := by
  rw [Interp.alter, Interp.alter, h.bench]
  cases s.bench with
  | some tape =>
    exact ⟨⟨h.steps, h.text, h.stack, h.tape⟩, rfl, ⟨h.free.hooks, h.free.sink⟩,
      ⟨h.free'.hooks, h.free'.sink⟩⟩
  | none =>
    exact ⟨⟨h.steps, h.text, h.stack, congrArg (Option.map f) h.tape⟩, rfl,
      ⟨h.free.hooks, h.free.sink⟩, ⟨h.free'.hooks, h.free'.sink⟩⟩

/-- Writing goes on behind what was written before. -/
theorem emit (h : before.Abreast s t) (text : String) :
    ∃ s' t', s.emit text = .ok s' ∧ t.emit text = .ok t' ∧ before.Abreast s' t' := by
  refine ⟨_, _, emit_of_open h.free.sink text, emit_of_open h.free'.sink text,
    ⟨h.steps, ?_, h.stack, h.tape⟩, h.bench, ⟨h.free.hooks, h.free.sink⟩,
    ⟨h.free'.hooks, h.free'.sink⟩⟩
  simp only [Sink.taken, h.text, String.append_assoc]

end Abreast

/-- Being abreast behind the same past, with the same statements at the same places. -/
def abreast (before : Interp L) : Kinship L where
  op o := o
  place := Eq
  count m n := n = before.steps + m
  state := before.Abreast

/-- Execution keeps two interpreters abreast. -/
theorem kept_abreast (before : Interp L) : before.abreast.Kept fun _ _ => True where
  hooks h := ⟨h.free.hooks, h.free'.hooks⟩
  steps h := h.steps
  position h := h.position_eq.symm
  start h hn := by
    obtain rfl := (List.cons.inj (hn.eq (fun _ => rfl) fun _ _ => id)).1
    exact h.start _
  push h near := by
    obtain rfl := Option.some.inj near
    exact h.push _
  pop h := h.pop
  cell _ h := h.cell_eq.symm
  operate {s t o l l' rest} _ h near := by
    obtain rfl : l = l' := near
    cases o with
    | left | right | increment | decrement => exact .ok (h.alter _)
    | output =>
      obtain ⟨s', t', hs, ht, h'⟩ := h.emit (String.singleton (Char.ofNat s.cell.toNat))
      have hs : s.operate .output l = .ok s' := hs
      have ht : t.operate (before.abreast.op .output) l = .ok t' := by rw [← ht, ← h.cell_eq]; rfl
      rw [hs, ht]
      exact .ok h'
    | input => exact .error (.fault ⟨rfl, rfl, rfl, rfl, rfl, .none⟩) h

/-- From verdicts that are akin to the words of the statement. -/
theorem repeats_of_verdicts {before : Interp L} {v w : Verdict L}
    (h : before.abreast.Verdicts v w) (hv : v.Settled) : before.Repeats v w := by
  cases h with
  | finished states => exact .finished states.toSince
  | unfinished => exact hv.elim
  | @stopped f g s t faults states =>
    have hplace : f.location = g.location := faults.place
    have hg : g = { f with step := f.step.map (before.steps + ·) } := by
      rw [faults.eq_with, ← hplace, faults.step_eq fun _ _ => id]
    rw [hg]
    exact .stopped states.toSince

/-! ## What is left of the past -/

variable [Listener L]

/-- What has been done leaves nobody to listen and the sink open. -/
theorem Free.advance {c : Config L} (h : c.state.Free) (n : Nat) : (c.advance n).state.Free := by
  have hself : ∀ as, (abreast ({} : Interp L)).Nodes as as := .refl (fun _ => rfl) fun _ => rfl
  have hloops : List.Forall₂ (abreast ({} : Interp L)).Loops c.loops c.loops :=
    List.forall₂_same.2 fun l _ => ⟨hself _, hself _⟩
  exact ((kept_abreast {}).advance ⟨.refl h, hself _, hloops⟩ n fun _ _ _ _ => trivial).state.free

theorem Free.run {s : Interp L} (h : s.Free) (fuel : Nat) (tape : Tape) :
    (s.run fuel tape).state.Free := by
  rw [Interp.run]
  cases s.parse with
  | error e => exact h
  | ok p =>
    have hload : Abreast {} (s.load p tape) (s.load p tape) := .refl ⟨h.hooks, h.sink⟩
    exact ((kept_abreast {}).runProgram hload (.refl (fun _ => rfl) (fun _ => rfl) _) fuel
      fun _ _ _ => trivial).state.free

theorem Free.execute {s : Interp L} (h : s.Free) (fuel : Nat) (nodes : List Node) (times : Nat) :
    (s.execute fuel nodes times).state.Free := by
  induction times generalizing s with
  | zero => exact h
  | succ times ih =>
    have hadvance := Free.advance (c := Config.enter s nodes) h fuel
    rw [Interp.execute]
    generalize (Config.enter s nodes).advance fuel = r at hadvance ⊢
    cases r with
    | running c => exact hadvance
    | finished t => exact ih hadvance
    | halted halt => exact hadvance

/-- The interpreter after a deed, however it came out. -/
def after (s : Interp L) : Deed → Interp L
  | .run fuel tape => (s.run fuel tape).state
  | .execute fuel lent nodes times =>
    let t := if lent.isSome || s.tape.isNone then s.lend (lent.getD Tape.fresh) else s
    (t.execute fuel nodes times).state.giveBack
  | .push frame => s.push frame
  | .replace source => { s with source }

/-- The interpreter after some deeds, one after the other. -/
def afterAll (s : Interp L) (deeds : List Deed) : Interp L := deeds.foldl after s

theorem Free.after {s : Interp L} (h : s.Free) (d : Deed) : (s.after d).Free := by
  cases d with
  | run fuel tape => exact h.run fuel tape
  | execute fuel lent nodes times =>
    have hlent : ∀ tape, (s.lend tape).Free := fun tape => ⟨h.hooks, h.sink⟩
    have hdone : ∀ t : Interp L, t.Free → (t.execute fuel nodes times).state.giveBack.Free := by
      intro t ht
      have ht' := ht.execute fuel nodes times
      exact ⟨ht'.hooks, ht'.sink⟩
    rw [Interp.after]
    split
    · exact hdone _ (hlent _)
    · exact hdone s h
  | push frame => exact ⟨h.hooks, h.sink⟩
  | replace source => exact ⟨h.hooks, h.sink⟩

theorem Free.afterAll {s : Interp L} (h : s.Free) (deeds : List Deed) :
    (s.afterAll deeds).Free := by
  induction deeds generalizing s with
  | nil => exact h
  | cons d rest ih => exact ih (h.after d)

/-! ## Runs -/

/-- A run owes nothing to the past. Whatever was done before with an interpreter to which nobody
listens and whose sink takes everything, running its text on a tape ends exactly when it does with a
new interpreter, and it turns out the same: with the same tape, call stack and output, and finished
or with the same fault at the same place. The instructions are counted on, and that is all. -/
theorem run_since (s : Interp L) (h : s.Free) (deeds : List Deed) (tape : Tape) {p : Program}
    (hp : (s.afterAll deeds).parse = .ok p) :
    let t := s.afterAll deeds
    let new : Interp L := { source := t.source, file := t.file }
    ((∃ v, new.EndsIn tape v) ↔ ∃ w, t.EndsIn tape w) ∧
      ∀ v w, new.EndsIn tape v → t.EndsIn tape w → t.Repeats v w := by
  intro t new
  have ht : t.Free := h.afterAll deeds
  have hload : t.Abreast (new.load p tape) (t.load p tape) :=
    ⟨⟨rfl, String.append_empty.symm, rfl, rfl⟩, rfl, ⟨rfl, Sink.open_default⟩,
      ⟨ht.hooks, ht.sink⟩⟩
  have hrun : ∀ fuel, t.abreast.Verdicts (new.run fuel tape) (t.run fuel tape) := by
    intro fuel
    have hnew : new.parse = .ok p := hp
    rw [Interp.run, Interp.run, hnew, hp]
    exact (kept_abreast t).runProgram hload (.refl (fun _ => rfl) (fun _ => rfl) _) fuel
      fun _ _ _ => trivial
  exact ends_of_runs (fun fuel => (hrun fuel).settled_iff) fun fuel =>
    repeats_of_verdicts (hrun fuel)

/-- An execution that failed inside two loops and a frame that was pushed are in the way of no run:
`+,` stops at its comma with the frame of the program alone, after six instructions in all. -/
theorem run_since_failure :
    let tape : Tape := ⟨2, Vector.replicate 2 0, 1⟩
    let place : Location := ⟨"a", 1, 2, "+[[,]]"⟩
    let s : Interp Script := { file := "a" }
    let deeds : List Deed :=
      [.execute 9 (some tape) [.op .increment none, .loop place [.loop place [.op .input none]]] 1,
        .push ⟨"f", none, none⟩, .replace "+,"]
    let t := s.afterAll deeds
    s.Free ∧ (∃ p, t.parse = .ok p) ∧ t.steps = 4 ∧ t.stack.length = 3 ∧
      ∃ f u, t.EndsIn tape (.stopped ⟨.fault f, u⟩) ∧ f.rule = some "InputReplace" ∧
        f.step = some 6 ∧ u.stack.map Frame.name = [topLevel] := by
  intro tape place s deeds t
  have hquiet : ∀ u : Interp Script, u.hooks = #[] → ∀ n, u.announce n = .ok u :=
    fun _ hu n => announce_of_no_hooks hu n
  have hpast : t.steps = 4 ∧ t.stack.length = 3 ∧ t.source = "+," ∧ t.file = "a" := by
    simp [t, afterAll, deeds, after, execute, lend, Config.enter, s, Config.advance, Config.step,
      Config.perform, Config.descend, Config.turn, Config.maxActive, Hooks.idle_empty, start,
      announceBefore, announceAfter, hquiet, operate, alter, Tape.modify, cell, work, tape,
      Tape.current, Progress.ofResult, reach, push, giveBack, Verdict.state]
  obtain ⟨hsteps, hframes, hsource, hfile⟩ := hpast
  let new : Interp Script := { source := "+,", file := "a" }
  have hparse : ∃ l l' finish,
      new.parse = .ok ⟨[.op .increment (some l), .op .input (some l')], finish⟩ := by
    have hspells : Spells (Source.ofText "+," "a") true 0 2
        [.op .increment (some ((Source.ofText "+," "a").place 0)),
          .op .input (some ((Source.ofText "+," "a").place 1))] :=
      .op (by decide) (.op (by decide) (.nil true 2))
    exact ⟨_, _, Program.exists_parse_of_spells (by decide) hspells (by simp [Node.depth])⟩
  obtain ⟨l, l', finish, hparse⟩ := hparse
  have hnew : ∃ f u, new.EndsIn tape (.stopped ⟨.fault f, u⟩) ∧ f.rule = some "InputReplace" ∧
      f.step = some 2 ∧ u.stack.map Frame.name = [topLevel] := by
    have hrun : ∃ f u, new.run 2 tape = .stopped ⟨.fault f, u⟩ ∧ f.rule = some "InputReplace" ∧
        f.step = some 2 ∧ u.stack.map Frame.name = [topLevel] := by
      rw [run_of_begin hparse (begin_untraced rfl _ tape), Config.advance_op rfl rfl,
        Config.advance_op_error rfl rfl, Progress.verdict, report,
        raise_of_announce (announce_of_no_hooks rfl _)]
      exact ⟨_, _, rfl, rfl, rfl, rfl⟩
    obtain ⟨f, u, hrun, hrest⟩ := hrun
    exact ⟨f, u, ⟨trivial, 2, hrun⟩, hrest⟩
  have hp : t.parse = new.parse := by rw [parse, hsource, hfile, parse]
  have hp := hp.trans hparse
  obtain ⟨f, u, hf, hrule, hstep, hnames⟩ := hnew
  have hfree : s.Free := ⟨rfl, Sink.open_default⟩
  obtain ⟨hends, hrepeats⟩ := run_since s hfree deeds tape hp
  have hf : Interp.EndsIn { source := (s.afterAll deeds).source, file := (s.afterAll deeds).file }
      tape (.stopped ⟨.fault f, u⟩) := by
    rw [show (s.afterAll deeds).source = _ from hsource,
      show (s.afterAll deeds).file = _ from hfile]
    exact hf
  obtain ⟨w, hw⟩ := hends.1 ⟨_, hf⟩
  refine ⟨hfree, ⟨_, hp⟩, hsteps, hframes, ?_⟩
  cases hrepeats _ w hf hw with
  | stopped states =>
    refine ⟨_, _, hw, hrule, ?_, ?_⟩
    · rw [hstep, Option.map_some, show (s.afterAll deeds).steps = _ from hsteps]
    · rw [states.stack, hnames]

end Interp

end TapeLang
