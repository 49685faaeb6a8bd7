import TapeLang.Proofs.Silence

/-!
# A single listener of instructions

A listener of single instructions hears neither the start nor the end of a program nor its fault.
While it takes no action, a run with it as the only listener is therefore the run without listeners,
from beginning to end.
-/

namespace TapeLang

variable {L : Type}

namespace Trigger

variable {tr : Trigger}

/-- What such a trigger hears goes out while statements are executed. -/
theorem hears_of_perInstruction (h : tr.perInstruction = true) :
    tr.hears Notice.started.signal = false ∧ tr.hears Notice.ended.signal = false ∧
      ∀ f, tr.hears (Notice.failed f).signal = false := by
  cases tr with
  | every n pos => exact ⟨rfl, rfl, fun _ => rfl⟩
  | on e =>
    cases e with
    | beforeInstruction | afterInstruction => exact ⟨rfl, rfl, fun _ => rfl⟩
    | programStart | programEnd | loopEnter | loopExit | onError => cases h

theorem AtStarts.perInstruction (h : tr.AtStarts) : tr.perInstruction = true := by
  rcases h with rfl | ⟨pos, rfl⟩ <;> rfl

end Trigger

theorem Hooks.idle_single {tr : Trigger} (h : tr.perInstruction = true) (l : L) (calls : Nat) :
    Hooks.idle #[⟨tr, l, calls⟩] = false := by
  simp [Hooks.idle, h]

namespace Interp

variable [Listener L] {s t : Interp L} {tr : Trigger} {l : L} {calls : Nat} {n : Notice}

/-! ## Announcements -/

/-- A single listener that does not hear a notice is not called. -/
theorem round_of_deaf (h : s.hooks = #[⟨tr, l, calls⟩]) (hn : tr.hears n.signal = false) :
    s.round n = .ok s := by
  have hfirst : 0 < s.hooks.size := by simp [h]
  have hsub : s.hooks[0] = ⟨tr, l, calls⟩ := by simp [h]
  have hlast : ¬1 < s.hooks.size := by simp [h]
  rw [round, roundFrom, dif_pos hfirst, hsub, if_neg (by simp [hn]), roundFrom, dif_neg hlast]

/-- A single listener that hears a notice has the round to itself, if it subscribes no other. -/
theorem round_of_hears {r : Except (Halt L) (Interp L)} (h : s.hooks = #[⟨tr, l, calls⟩])
    (hn : tr.hears n.signal = true) (hr : s.callListener 0 ⟨tr, l, calls⟩ n = r)
    (hlast : ∀ t, r = .ok t → t.hooks.size = 1) : s.round n = r := by
  have hfirst : 0 < s.hooks.size := by simp [h]
  have hsub : s.hooks[0] = ⟨tr, l, calls⟩ := by simp [h]
  rw [round, roundFrom, dif_pos hfirst, hsub, if_pos hn]
  split
  · next t hcalled =>
    obtain rfl := hcalled.symm.trans hr
    rw [roundFrom, dif_neg (by simp [hlast t rfl])]
  · next halt hcalled => exact hcalled.symm.trans hr

theorem announce_of_deaf (h : s.hooks = #[⟨tr, l, calls⟩]) (hn : tr.hears n.signal = false) :
    s.announce n = .ok s := by
  rw [announce_eq, round_of_deaf h hn]

/-- A listener that takes no action at its next call has been called at most, and that is all. -/
theorem announce_of_quiet (h : s.hooks = #[⟨tr, l, calls⟩])
    (hquiet : tr.hears n.signal = true → ∀ c, Listener.react l (calls + 1) n c = [])
    (journal : Array (Call L)) :
    ∃ t, s.announce n = .ok t ∧ t.hush journal = s.hush journal ∧
      t.hooks = #[⟨tr, l, calls + if tr.hears n.signal then 1 else 0⟩] := by
  cases hn : tr.hears n.signal with
  | false => exact ⟨s, announce_of_deaf h hn, rfl, h⟩
  | true =>
    have hhooks : (s.noteCall 0 l n).hooks = #[⟨tr, l, calls + 1⟩] := by
      simp [noteCall, Hooks.count, h]
    have hcall : s.callListener 0 ⟨tr, l, calls⟩ n = .ok (s.noteCall 0 l n) := by
      rw [callListener, hquiet hn, performAll]
    have hround : s.round n = .ok (s.noteCall 0 l n) := by
      refine round_of_hears h hn hcall ?_
      rintro t ⟨⟩
      simp [hhooks]
    exact ⟨s.noteCall 0 l n, by rw [announce, hround], rfl, hhooks⟩

/-! ## Beginning and end -/

/-- The listener does not hear the start of the program, whose first pass is traced for it. -/
theorem begin_single (htr : tr.perInstruction = true) (h : s.hooks = #[⟨tr, l, calls⟩])
    (p : Program) (tape : Tape) :
    s.begin p tape = .ok ⟨s.load p tape, p.statements, true, []⟩ := by
  have hload : (s.load p tape).hooks = #[⟨tr, l, calls⟩] := h
  have hidle : (s.load p tape).hooks.idle = false := by rw [hload, Hooks.idle_single htr]
  rw [begin, announce_of_deaf hload (Trigger.hears_of_perInstruction htr).1]
  simp only [Config.enter, hidle, Bool.not_false]
  rfl

/-- Without listeners the first pass is not traced. -/
theorem begin_untraced (h : s.hooks = #[]) (p : Program) (tape : Tape) :
    s.begin p tape = .ok ⟨s.load p tape, p.statements, false, []⟩ := by
  have hidle : (s.load p tape).hooks.idle = true := by
    have hload : (s.load p tape).hooks = #[] := h
    rw [hload, Hooks.idle_empty]
  rw [begin_of_no_hooks h]
  simp only [Config.enter, hidle, Bool.not_true]

/-- Without listeners a program begins at the silent form of the same configuration. -/
theorem begin_hush (s : Interp L) (journal : Array (Call L)) (p : Program) (tape : Tape)
    (traced : Bool) : (s.hush journal).begin p tape =
      .ok (Config.hush journal ⟨s.load p tape, p.statements, traced, []⟩) :=
  begin_untraced rfl p tape

/-- A fault whose announcement changes nothing is passed on with the count of instructions. -/
theorem raise_of_announce {f : Fault}
    (h : s.announce (.failed { f with step := some s.steps }) = .ok s) :
    s.raise f = ⟨.fault { f with step := some s.steps }, s⟩ := by
  rw [raise, h]

theorem raise_single (htr : tr.perInstruction = true) (h : s.hooks = #[⟨tr, l, calls⟩])
    (f : Fault) : s.raise f = ⟨.fault { f with step := some s.steps }, s⟩ :=
  raise_of_announce (announce_of_deaf h ((Trigger.hears_of_perInstruction htr).2.2 _))

/-- A halt is reported as it is without listeners. -/
theorem report_single (htr : tr.perInstruction = true) {h : Halt L}
    (hs : h.state.hooks = #[⟨tr, l, calls⟩]) (journal : Array (Call L)) :
    report (h.hush journal) = (report h).hush journal := by
  obtain ⟨stop, s⟩ := h
  have hraise (f : Fault) : (s.hush journal).raise f = (s.raise f).hush journal := by
    rw [raise_single htr hs, raise_of_announce (announce_of_no_hooks rfl _)]
    rfl
  cases stop with
  | fault f => exact hraise f
  | failure f => exact hraise (s.wrap f)
  | exit | interrupt | quit => rfl

/-- The end of a program is as it is without listeners. -/
theorem conclude_single (htr : tr.perInstruction = true) (h : s.hooks = #[⟨tr, l, calls⟩]) :
    s.conclude = .finished s.pop := by
  rw [conclude, announce_of_deaf h (Trigger.hears_of_perInstruction htr).2.1]

end Interp

/-! ## Runs -/

section Verdicts

variable [Listener L]

/-- What a run makes of the progress of its program. -/
def Progress.verdict : Progress L → Verdict L
  | .running c => .unfinished c
  | .finished s => s.conclude
  | .halted h => .stopped (Interp.report h)

/-- The verdict has started what execution has started. -/
theorem Progress.verdict_steps (r : Progress L) : r.verdict.state.steps = r.state.steps := by
  cases r with
  | running c => rfl
  | finished s =>
    obtain ⟨t, ht, hv | ⟨stop, hv⟩⟩ := s.exists_conclude
    · rw [verdict, hv]
      exact ht.steps
    · rw [verdict, hv]
      exact ht.steps
  | halted h =>
    cases hr : h.reported with
    | none => rw [verdict, Interp.report_of_reported_none hr]; rfl
    | some f => exact (Interp.report_heard hr).steps

/-- The verdict is over when execution is. -/
theorem Progress.settled_verdict {r : Progress L} : r.verdict.Settled ↔ r.Settled := by
  cases r with
  | running c => exact Iff.rfl
  | halted h => exact Iff.rfl
  | finished s =>
    obtain ⟨t, -, hv | ⟨stop, hv⟩⟩ := s.exists_conclude
    · rw [verdict, hv]
      exact Iff.rfl
    · rw [verdict, hv]
      exact Iff.rfl

end Verdicts

/-- The same verdict with nobody to listen. -/
def Verdict.hush (journal : Array (Call L)) : Verdict L → Verdict L
  | .unparsed e s => .unparsed e (s.hush journal)
  | .finished s => .finished (s.hush journal)
  | .stopped h => .stopped (h.hush journal)
  | .unfinished c => .unfinished (c.hush journal)

namespace Verdict

variable {v : Verdict L} {journal : Array (Call L)}

theorem state_hush (v : Verdict L) (journal : Array (Call L)) :
    (v.hush journal).state = v.state.hush journal := by
  cases v <;> rfl

theorem settled_hush : (v.hush journal).Settled ↔ v.Settled := by
  cases v <;> exact Iff.rfl

/-- A verdict is like its silent form. -/
theorem alike_hush (h : v.Settled) (journal : Array (Call L)) : v.Alike (v.hush journal) := by
  have hstate (s : Interp L) : s.Alike (s.hush journal) :=
    ⟨rfl, rfl, rfl, rfl, rfl, rfl, rfl, rfl, rfl⟩
  cases v with
  | unparsed e s => exact .unparsed e (hstate s)
  | finished s => exact .finished (hstate s)
  | stopped halt =>
    exact .stopped halt.stop (hstate _) (hstate _).traceback_eq (hstate _).tracebackJson_eq
  | unfinished c => exact h.elim

end Verdict

namespace Interp

variable [Listener L] {s : Interp L} {p : Program} {tape : Tape}

theorem runProgram_of_begin {c : Config L} (h : s.begin p tape = .ok c) (fuel : Nat) :
    s.runProgram fuel p tape = (c.advance fuel).verdict := by
  simp only [runProgram, h]
  cases c.advance fuel <;> rfl

theorem run_of_begin {c : Config L} (hp : s.parse = .ok p) (h : s.begin p tape = .ok c)
    (fuel : Nat) : s.run fuel tape = (c.advance fuel).verdict := by
  rw [run, hp]
  exact runProgram_of_begin h fuel

/-- Without listeners nobody comes to listen during a run. If the sink does nothing worse than fail,
the run stops with a fault or not at all. -/
theorem run_of_no_hooks (hs : s.hooks = #[]) (fuel : Nat) (tape : Tape) :
    (s.run fuel tape).state.hooks = #[] ∧ (s.sink.Ordinary →
      ∀ stop, (s.run fuel tape).stop? = some stop → ∃ f, stop = .fault f) := by
  cases hp : s.parse with
  | error e =>
    rw [run, hp]
    exact ⟨hs, fun _ stop h => by cases h⟩
  | ok p =>
    let c : Config L := ⟨s.load p tape, p.statements, false, []⟩
    have hload : c.state.hooks = #[] := hs
    have hquiet := Config.advance_of_no_hooks hload fuel
    rw [run_of_begin hp (begin_untraced hs p tape)]
    show (c.advance fuel).verdict.state.hooks = #[] ∧ _
    cases hr : c.advance fuel with
    | running d =>
      rw [hr] at hquiet
      exact ⟨hquiet, fun _ stop h => by cases h⟩
    | finished t =>
      rw [hr] at hquiet
      have hquiet : t.hooks = #[] := hquiet
      rw [Progress.verdict, conclude_of_no_hooks hquiet]
      exact ⟨hquiet, fun _ stop h => by cases h⟩
    | halted halt =>
      rw [hr] at hquiet
      have hquiet : halt.state.hooks = #[] := hquiet
      rw [Progress.verdict]
      cases hreported : halt.reported with
      | none =>
        rw [report_of_reported_none hreported]
        refine ⟨hquiet, fun hk => ?_⟩
        obtain ⟨f, hf⟩ := Config.exists_reported_of_no_hooks hload hk hr
        cases hreported.symm.trans hf
      | some f =>
        rw [report_of_reported hreported, announce_of_no_hooks hquiet]
        exact ⟨hquiet, fun _ stop h => ⟨f, (Option.some.inj h).symm⟩⟩

/-- With more steps a run has started as many statements or more. -/
theorem run_steps_le (s : Interp L) (tape : Tape) (n k : Nat) :
    (s.run n tape).state.steps ≤ (s.run (n + k) tape).state.steps := by
  cases hp : s.parse with
  | error e => rw [run, run, hp]
  | ok p =>
    cases hc : s.begin p tape with
    | error h =>
      rw [run, run, hp]
      simp only [runProgram, hc]
      exact Nat.le_refl _
    | ok c =>
      rw [run_of_begin hp hc, run_of_begin hp hc, Progress.verdict_steps, Progress.verdict_steps]
      exact c.advance_steps_mono (Nat.le_add_right n k)

variable {tr : Trigger} {l : L} {bound calls : Nat} {inv : Interp L → Moment → Prop}

/-- Where only this listener is, progress is judged as it is without listeners. -/
theorem verdict_single (htr : tr.perInstruction = true) {r : Progress L}
    (h : r.state.hooks = #[⟨tr, l, calls⟩]) (journal : Array (Call L)) :
    (r.hush journal).verdict = r.verdict.hush journal := by
  cases r with
  | running c => rfl
  | finished t =>
    have hheard : t.conclude = .finished t.pop := conclude_single htr h
    have hquiet : (t.hush journal).conclude = .finished (t.hush journal).pop :=
      conclude_of_no_hooks rfl
    rw [Progress.hush, Progress.verdict, hquiet, Progress.verdict, hheard]
    rfl
  | halted halt => exact congrArg Verdict.stopped (report_single htr h journal)

/-- While the listener takes no action, the run is the one without listeners. -/
theorem run_single (htr : tr.perInstruction = true) (hs : s.hooks = #[⟨tr, l, calls⟩])
    (hp : Passive s.journal bound inv)
    (hinv : ∀ t m, inv t m → ∃ calls, t.hooks = #[⟨tr, l, calls⟩])
    (hstart : ∀ p : Program, inv (s.load p tape) (.next p.statements true [])) {fuel : Nat}
    (hbound : ((s.hush s.journal).run fuel tape).state.steps < bound) :
    (s.run fuel tape).hush s.journal = (s.hush s.journal).run fuel tape := by
  have hparse : (s.hush s.journal).parse = s.parse := rfl
  rw [run, hparse] at hbound
  rw [run, run, hparse]
  cases hread : s.parse with
  | error e => rfl
  | ok p =>
    simp only [hread] at hbound ⊢
    rw [runProgram_of_begin (begin_hush s s.journal p tape true)] at hbound ⊢
    rw [Progress.verdict_steps] at hbound
    obtain ⟨heq, hkeeps⟩ := hp.advance (hstart p) hbound
    obtain ⟨m, hm⟩ := hkeeps.exists_moment
    obtain ⟨calls, hhooks⟩ := hinv _ m hm
    rw [runProgram_of_begin (begin_single htr hs p tape), ← verdict_single htr hhooks, heq]

end Interp

end TapeLang
