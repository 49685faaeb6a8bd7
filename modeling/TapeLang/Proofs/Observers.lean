import Mathlib.Data.List.Forall2
import TapeLang.Proofs.Ending
import TapeLang.Proofs.Evaluation
import TapeLang.Traceback

/-!
# Listeners that take no action

Listeners that only listen leave no mark on a run. Two interpreters, one with such listeners and one
with none at all, stay alike when both take the same step: whether a pass is traced makes a
difference to who hears of it and to nothing else.
-/

namespace TapeLang

variable {L : Type}

/-- Two interpreters differ in their listeners, and in what these have heard, at most. -/
structure Interp.Alike (s t : Interp L) : Prop where
  source : s.source = t.source
  file : s.file = t.file
  steps : s.steps = t.steps
  stack : s.stack = t.stack
  tape : s.tape = t.tape
  bench : s.bench = t.bench
  program : s.program = t.program
  sink : s.sink = t.sink
  reports : s.reports = t.reports

namespace Interp.Alike

variable {s t : Interp L}

/-- A traceback reads the call stack and the tape only. -/
theorem traceback_eq (h : s.Alike t) (f : Fault) (verbose : Bool) :
    s.traceback f verbose = t.traceback f verbose := by
  rw [traceback, traceback, tracebackLines, tracebackLines, snapshot, snapshot, h.stack, h.tape]

theorem tracebackJson_eq (h : s.Alike t) (f : Fault) : s.tracebackJson f = t.tracebackJson f := by
  rw [tracebackJson, tracebackJson, snapshot, snapshot, h.stack, h.tape]

end Interp.Alike

/-- Two runs turned out alike, tracebacks included. -/
inductive Verdict.Alike : Verdict L → Verdict L → Prop where
  | unparsed {s t : Interp L} (e : ParseError) (states : s.Alike t) :
      Alike (.unparsed e s) (.unparsed e t)
  | finished {s t : Interp L} (states : s.Alike t) : Alike (.finished s) (.finished t)
  | stopped {s t : Interp L} (stop : Stop) (states : s.Alike t)
      (text : ∀ f verbose, s.traceback f verbose = t.traceback f verbose)
      (json : ∀ f, s.tracebackJson f = t.tracebackJson f) :
      Alike (.stopped ⟨stop, s⟩) (.stopped ⟨stop, t⟩)

section Listening

variable [Listener L]

/-- No listener ever takes an action. -/
def Hooks.Observing (hooks : Hooks L) : Prop :=
  ∀ sub ∈ hooks, ∀ k n c, Listener.react sub.listener k n c = []

/-- Counting a call makes no listener act. -/
theorem Hooks.Observing.count {hooks : Hooks L} (h : hooks.Observing) (i : Nat) :
    (hooks.count i).Observing := by
  intro sub hsub
  obtain ⟨k, hk, rfl⟩ := Array.mem_iff_getElem.1 hsub
  have hk' : k < hooks.size := by simpa [Hooks.count] using hk
  have hsame : (hooks.count i)[k].listener = hooks[k].listener := by
    simp only [Hooks.count, Array.getElem_modify]
    split <;> rfl
  rw [hsame]
  exact h _ (Array.getElem_mem hk')

namespace Interp

/-- The listeners of the first interpreter take no action, and the second is the same without
listeners. -/
structure Unheard (s t : Interp L) : Prop extends s.Alike t where
  observing : s.hooks.Observing
  silent : t.hooks = #[]

variable {s t : Interp L}

theorem Unheard.exists_eq (h : s.Unheard t) :
    ∃ journal, t = { s with hooks := #[], journal } := by
  refine ⟨t.journal, ?_⟩
  rw [h.source, h.file, h.steps, h.stack, h.tape, h.bench, h.program, h.sink, h.reports, ← h.silent]

theorem unheard_without_hooks (s : Interp L) (h : s.hooks.Observing) (journal : Array (Call L)) :
    s.Unheard { s with hooks := #[], journal } :=
  ⟨⟨rfl, rfl, rfl, rfl, rfl, rfl, rfl, rfl, rfl⟩, h, rfl⟩

/-- A call that leads to nothing is noted, and that is all. -/
theorem Unheard.callListener (h : s.Unheard t) {i : Nat} (hi : i < s.hooks.size) (n : Notice) :
    ∃ s', s.callListener i s.hooks[i] n = .ok s' ∧ s'.Unheard t := by
  refine ⟨s.noteCall i s.hooks[i].listener n, ?_, ⟨h.source, h.file, h.steps, h.stack, h.tape,
    h.bench, h.program, h.sink, h.reports⟩, h.observing.count i, h.silent⟩
  rw [Interp.callListener, h.observing _ (Array.getElem_mem hi), performAll]

/-- A round of such calls goes on to its end. -/
theorem Unheard.roundFrom (h : s.Unheard t) (n : Notice) (i : Nat) :
    ∃ s', s.roundFrom n i = .ok s' ∧ s'.Unheard t := by
  fun_induction Interp.roundFrom s n i with
  | case1 s i hi _ s' hcalled ih =>
    obtain ⟨_, he, hs'⟩ := h.callListener hi n
    obtain rfl := Except.ok.inj (hcalled.symm.trans he)
    exact ih hs'
  | case2 s i hi _ halt hcalled =>
    obtain ⟨_, he, -⟩ := h.callListener hi n
    cases hcalled.symm.trans he
  | case3 s i hi _ ih => exact ih h
  | case4 s i hi => exact ⟨s, rfl, h⟩

/-- An announcement succeeds on both sides. -/
theorem Unheard.announce (h : s.Unheard t) (n : Notice) :
    ∃ s', s.announce n = .ok s' ∧ t.announce n = .ok t ∧ s'.Unheard t := by
  obtain ⟨s', he, hs'⟩ := h.roundFrom n 0
  refine ⟨s', ?_, announce_of_no_hooks h.silent n, hs'⟩
  rw [Interp.announce, round, he]

theorem Unheard.announceBefore (h : s.Unheard t) (traced traced' : Bool) (n : Node) :
    ∃ s', s.announceBefore traced n = .ok s' ∧ t.announceBefore traced' n = .ok t ∧
      s'.Unheard t := by
  have ht := announceBefore_of_no_hooks h.silent traced' n
  cases traced with
  | false => exact ⟨s, rfl, ht, h⟩
  | true =>
    obtain ⟨s₁, he₁, -, h₁⟩ := h.announce (.before n)
    obtain ⟨s₂, he₂, -, h₂⟩ := h₁.announce (.tick s₁.steps)
    refine ⟨s₂, ?_, ht, h₂⟩
    rw [Interp.announceBefore, if_pos rfl, he₁]
    exact he₂

theorem Unheard.announceAfter (h : s.Unheard t) (traced traced' : Bool) (n : Node) :
    ∃ s', s.announceAfter traced n = .ok s' ∧ t.announceAfter traced' n = .ok t ∧
      s'.Unheard t := by
  have ht := announceAfter_of_no_hooks h.silent traced' n
  cases traced with
  | false => exact ⟨s, rfl, ht, h⟩
  | true =>
    obtain ⟨s₁, he₁, -, h₁⟩ := h.announce (.after n)
    exact ⟨s₁, he₁, ht, h₁⟩

/-! ### What statements do -/

theorem Unheard.cell_eq (h : s.Unheard t) : s.cell = t.cell := by
  rw [cell, cell, work, work, h.tape, h.bench]

theorem Unheard.start (h : s.Unheard t) (n : Node) : (s.start n).Unheard (t.start n) := by
  obtain ⟨journal, rfl⟩ := h.exists_eq
  exact unheard_without_hooks (s.start n) h.observing journal

theorem Unheard.push (h : s.Unheard t) (f : Frame) : (s.push f).Unheard (t.push f) := by
  obtain ⟨journal, rfl⟩ := h.exists_eq
  exact unheard_without_hooks (s.push f) h.observing journal

theorem Unheard.pop (h : s.Unheard t) : s.pop.Unheard t.pop := by
  obtain ⟨journal, rfl⟩ := h.exists_eq
  exact unheard_without_hooks s.pop h.observing journal

theorem Unheard.load (h : s.Unheard t) (p : Program) (tape : Tape) :
    (s.load p tape).Unheard (t.load p tape) := by
  obtain ⟨journal, rfl⟩ := h.exists_eq
  exact unheard_without_hooks (s.load p tape) h.observing journal

theorem Unheard.alter (h : s.Unheard t) (f : Tape → Tape) : (s.alter f).Unheard (t.alter f) := by
  obtain ⟨journal, rfl⟩ := h.exists_eq
  cases hb : s.bench with
  | none =>
    simp only [Interp.alter, hb]
    exact unheard_without_hooks { s with tape := s.tape.map f, bench := none } h.observing journal
  | some tape =>
    simp only [Interp.alter, hb]
    exact unheard_without_hooks { s with bench := some (f tape) } h.observing journal

/-- Both operations take effect, or both stop for the same reason. -/
theorem Unheard.operate (h : s.Unheard t) (o : Op) (l : Option Location) :
    (∃ s' t', s.operate o l = .ok s' ∧ t.operate o l = .ok t' ∧ s'.Unheard t') ∨
      ∃ stop s' t', s.operate o l = .error ⟨stop, s'⟩ ∧ t.operate o l = .error ⟨stop, t'⟩ ∧
        s'.Unheard t' := by
  cases o with
  | left => exact .inl ⟨_, _, rfl, rfl, h.alter _⟩
  | right => exact .inl ⟨_, _, rfl, rfl, h.alter _⟩
  | increment => exact .inl ⟨_, _, rfl, rfl, h.alter _⟩
  | decrement => exact .inl ⟨_, _, rfl, rfl, h.alter _⟩
  | output =>
    simp only [Interp.operate, ← h.cell_eq, emit, ← h.sink]
    have hsink (sink : Sink) : Interp.Unheard { s with sink } { t with sink } := by
      obtain ⟨journal, rfl⟩ := h.exists_eq
      exact unheard_without_hooks { s with sink } h.observing journal
    cases s.sink.refusal s.sink.calls with
    | none => exact .inl ⟨_, _, rfl, rfl, hsink _⟩
    | some stop => exact .inr ⟨_, _, _, rfl, rfl, hsink _⟩
  | input => exact .inr ⟨_, _, _, rfl, rfl, h⟩

end Interp

/-! ### Steps of execution -/

/-- The loops are the same, whether or not the passes around them are traced. -/
def ActiveLoop.Alike (l m : ActiveLoop) : Prop :=
  l.location = m.location ∧ l.body = m.body ∧ l.rest = m.rest

/-- Execution has got equally far, with listeners that take no action and without listeners. -/
structure Config.Unheard (c d : Config L) : Prop where
  state : c.state.Unheard d.state
  rest : c.rest = d.rest
  loops : List.Forall₂ ActiveLoop.Alike c.loops d.loops

/-- Execution has led to the same. -/
inductive Progress.Unheard : Progress L → Progress L → Prop where
  | running {c d : Config L} (h : c.Unheard d) : Unheard (.running c) (.running d)
  | finished {s t : Interp L} (h : s.Unheard t) : Unheard (.finished s) (.finished t)
  | halted {s t : Interp L} (stop : Stop) (h : s.Unheard t) :
      Unheard (.halted ⟨stop, s⟩) (.halted ⟨stop, t⟩)

namespace Config

variable {s t : Interp L} {l m : ActiveLoop} {loops outer outer' : List ActiveLoop}

/-- What follows the effect of a statement is the same. -/
theorem ofResult_unheard (h : s.Unheard t) (traced traced' : Bool) (n : Node)
    {next next' : Interp L → Config L}
    (hnext : ∀ {s t : Interp L}, s.Unheard t → (next s).Unheard (next' t)) :
    Progress.Unheard (.ofResult (s.announceAfter traced n) next)
      (.ofResult (t.announceAfter traced' n) next') := by
  obtain ⟨s', hs, ht, h'⟩ := h.announceAfter traced traced' n
  rw [hs, ht]
  exact .running (hnext h')

theorem turn_unheard (h : s.Unheard t) (hl : l.Alike m)
    (ho : List.Forall₂ ActiveLoop.Alike outer outer') :
    Progress.Unheard (turn s l outer) (turn t m outer') := by
  obtain ⟨hplace, hbody, hrest⟩ := hl
  have hnode : l.node = m.node := by rw [ActiveLoop.node, ActiveLoop.node, hplace, hbody]
  rw [turn, turn, h.cell_eq]
  by_cases hz : t.cell = 0
  · rw [if_pos hz, if_pos hz, leave, leave, hnode]
    obtain ⟨s', hs, ht, h'⟩ := h.announce (.left m.node)
    rw [hs, ht]
    exact ofResult_unheard h'.pop _ _ _ fun h => ⟨h, hrest, ho⟩
  · rw [if_neg hz, if_neg hz]
    exact .running ⟨h, hbody, .cons ⟨hplace, hbody, hrest⟩ ho⟩

theorem descend_unheard (h : s.Unheard t) (hl : l.Alike m)
    (ho : List.Forall₂ ActiveLoop.Alike outer outer') :
    Progress.Unheard (descend s l outer) (descend t m outer') := by
  obtain ⟨hplace, hbody, hrest⟩ := hl
  have hnode : l.node = m.node := by rw [ActiveLoop.node, ActiveLoop.node, hplace, hbody]
  rw [descend, descend, h.cell_eq, ho.length_eq, hnode, hplace]
  by_cases hz : t.cell = 0
  · rw [if_pos hz, if_pos hz]
    exact ofResult_unheard h _ _ _ fun h => ⟨h, hrest, ho⟩
  · rw [if_neg hz, if_neg hz]
    by_cases hdeep : maxActive ≤ outer'.length
    · rw [if_pos hdeep, if_pos hdeep]
      exact .halted _ h
    · rw [if_neg hdeep, if_neg hdeep]
      obtain ⟨s', hs, ht, h'⟩ := (h.push (Frame.ofLoop m.location)).announce (.entered m.node)
      rw [hs, ht]
      exact turn_unheard h' ⟨hplace, hbody, hrest⟩ ho

/-- One step of execution leads to the same, whether or not it is announced. -/
theorem step_unheard {c d : Config L} (h : c.Unheard d) : c.step.Unheard d.step := by
  obtain ⟨s, rest, traced, loops⟩ := c
  obtain ⟨t, rest', traced', loops'⟩ := d
  obtain ⟨hstate, hrest, hloops⟩ := h
  simp only at hstate hrest hloops
  subst hrest
  cases rest with
  | nil =>
    cases hloops with
    | nil => exact .finished hstate
    | cons hl ho => exact turn_unheard hstate hl ho
  | cons n rest =>
    obtain ⟨s₁, hs, ht, h₁⟩ := (hstate.start n).announceBefore traced traced' n
    rw [step, step, hs, ht]
    cases n with
    | op o place =>
      simp only [perform]
      rcases h₁.operate o place with ⟨s', t', hs', ht', h'⟩ | ⟨stop, s', t', hs', ht', h'⟩
      · rw [hs', ht']
        exact ofResult_unheard h' _ _ _ fun h => ⟨h, rfl, hloops⟩
      · rw [hs', ht']
        exact .halted stop h'
    | loop place body => exact descend_unheard h₁ ⟨rfl, rfl, rfl⟩ hloops
    | bare place => exact .halted _ h₁

/-- Execution for any number of steps leads to the same. -/
theorem advance_unheard {c d : Config L} (h : c.Unheard d) (n : Nat) :
    (c.advance n).Unheard (d.advance n) := by
  induction n generalizing c d with
  | zero => exact .running h
  | succ n ih =>
    rw [advance, advance]
    have hstep := step_unheard h
    generalize c.step = q at hstep ⊢
    generalize d.step = r at hstep ⊢
    cases hstep with
    | running h => exact ih h
    | finished h => exact .finished h
    | halted stop h => exact .halted stop h

end Config

/-! ### Runs -/

namespace Interp

variable {s t : Interp L}

theorem Unheard.parse_eq (h : s.Unheard t) : s.parse = t.parse := by
  rw [parse, parse, h.source, h.file]

theorem Unheard.begin (h : s.Unheard t) (p : Program) (tape : Tape) :
    ∃ c d, s.begin p tape = .ok c ∧ t.begin p tape = .ok d ∧ c.Unheard d := by
  obtain ⟨s', hs, ht, h'⟩ := (h.load p tape).announce .started
  refine ⟨Config.enter s' s'.program, Config.enter (t.load p tape) (t.load p tape).program, ?_, ?_,
    h', h'.program, .nil⟩
  · rw [Interp.begin, hs]
  · rw [Interp.begin, ht]

theorem Unheard.wrap_eq (h : s.Unheard t) (f : Failure) : s.wrap f = t.wrap f := by
  rw [wrap, wrap, position, position, h.stack]

/-- A fault is announced and passed on alike. -/
theorem Unheard.raise (h : s.Unheard t) (f : Fault) :
    ∃ stop s' t', s.raise f = ⟨stop, s'⟩ ∧ t.raise f = ⟨stop, t'⟩ ∧ s'.Unheard t' := by
  obtain ⟨s', hs, ht, h'⟩ := h.announce (.failed { f with step := some t.steps })
  refine ⟨.fault { f with step := some t.steps }, s', t, ?_, ?_, h'⟩
  · rw [Interp.raise, h.steps, hs]
  · rw [Interp.raise, ht]

/-- A halt is reported alike. -/
theorem Unheard.report (h : s.Unheard t) (stop : Stop) :
    ∃ stop' s' t', Interp.report ⟨stop, s⟩ = ⟨stop', s'⟩ ∧ Interp.report ⟨stop, t⟩ = ⟨stop', t'⟩ ∧
      s'.Unheard t' := by
  cases stop with
  | fault f => exact h.raise f
  | failure f =>
    obtain ⟨stop', s', t', hs, ht, h'⟩ := h.raise (t.wrap f)
    refine ⟨stop', s', t', ?_, ht, h'⟩
    rw [Interp.report, h.wrap_eq, hs]
  | exit code => exact ⟨_, _, _, rfl, rfl, h⟩
  | interrupt text => exact ⟨_, _, _, rfl, rfl, h⟩
  | quit kind text => exact ⟨_, _, _, rfl, rfl, h⟩

/-- With any number of steps, both runs are under way or have turned out alike. -/
theorem Unheard.run (h : s.Unheard t) (tape : Tape) (n : Nat) :
    (¬(s.run n tape).Settled ∧ ¬(t.run n tape).Settled) ∨
      ((s.run n tape).Settled ∧ (t.run n tape).Settled ∧ (s.run n tape).Alike (t.run n tape)) := by
  rw [Interp.run, Interp.run, h.parse_eq]
  cases t.parse with
  | error e => exact .inr ⟨trivial, trivial, .unparsed e h.toAlike⟩
  | ok p =>
    obtain ⟨c, d, hc, hd, hcd⟩ := h.begin p tape
    simp only [runProgram, hc, hd]
    have hadvance := Config.advance_unheard hcd n
    generalize c.advance n = q at hadvance ⊢
    generalize d.advance n = r at hadvance ⊢
    cases hadvance with
    | running => exact .inl ⟨id, id⟩
    | finished h =>
      obtain ⟨s', hs, ht, h'⟩ := h.announce .ended
      simp only [conclude, hs, ht]
      exact .inr ⟨trivial, trivial, .finished h'.pop.toAlike⟩
    | halted stop h =>
      obtain ⟨stop', s', t', hs, ht, h'⟩ := h.report stop
      simp only [hs, ht]
      exact .inr ⟨trivial, trivial, .stopped stop' h'.toAlike h'.toAlike.traceback_eq
        h'.toAlike.tracebackJson_eq⟩

/-- Listeners that take no action do not change a run: it ends exactly when the same run without
listeners ends, and it turns out alike. -/
theorem run_unheard (s : Interp L) (h : s.hooks.Observing) (tape : Tape) :
    let quiet : Interp L := { s with hooks := #[] }
    ((∃ v, s.EndsIn tape v) ↔ ∃ w, quiet.EndsIn tape w) ∧
      ∀ v w, s.EndsIn tape v → quiet.EndsIn tape w → v.Alike w :=
  ends_of_lockstep (fun _ => run_stable) (fun _ => run_stable)
    ((unheard_without_hooks s h s.journal).run tape)

open Evaluation in
/-- In `+.` the sink refuses the write whoever listens, and the tracebacks are the same. -/
theorem run_unheard_refused_write :
    let s : Interp Script :=
      { source := "+.", file := "<string>"
        hooks := #[⟨.on .beforeInstruction, .mk "a" none [], 0⟩,
          ⟨.every 2 (by decide), .mk "b" none [], 0⟩, ⟨.on .onError, .mk "c" (some 1) [], 0⟩]
        sink := .closing 0 (.failure (.named "OSError" "closed")) }
    let quiet : Interp Script := { s with hooks := #[] }
    let tape : Tape := ⟨2, Vector.replicate 2 0, 1⟩
    s.hooks.Observing ∧ ∃ f s' t', s.EndsIn tape (.stopped ⟨.fault f, s'⟩) ∧
      quiet.EndsIn tape (.stopped ⟨.fault f, t'⟩) ∧ f.step = some 2 ∧
      s'.traceback f true = t'.traceback f true := by
  intro s quiet tape
  have hobserving : s.hooks.Observing := by
    intro sub hsub k n c
    simp only [s, List.mem_toArray, List.mem_cons, List.not_mem_nil, or_false] at hsub
    rcases hsub with rfl | rfl | rfl
    · rfl
    · rfl
    · exact ite_self []
  obtain ⟨hends, halike⟩ := run_unheard s hobserving tape
  have htokens : Source.ofText "+." "<string>" =
      ⟨#[⟨.op .increment, 1, 1⟩, ⟨.op .output, 1, 2⟩, ⟨.finish, 1, 3⟩], "<string>", #["+."]⟩ := rfl
  have hstep : (match quiet.run 3 tape with
      | .stopped ⟨.fault f, _⟩ => f.step
      | _ => none) = some 2 := by simp [quiet, s, tape, htokens]
  split at hstep
  · next f t' ht =>
    have hquiet : quiet.EndsIn tape (.stopped ⟨.fault f, t'⟩) := ⟨trivial, 3, ht⟩
    obtain ⟨v, hv⟩ := hends.2 ⟨_, hquiet⟩
    cases halike v _ hv hquiet with
    | stopped stop states text json =>
      exact ⟨hobserving, f, _, t', hv, hquiet, hstep, text f true⟩
  · cases hstep

end Interp

end Listening

end TapeLang
