import TapeLang.Proofs.Kinship

/-!
# Direct execution

Statements can be executed on their own, with neither a program nor a report around them. That is
execution from the configuration that has these statements ahead and no active loop, and what it
comes to is the verdict. Whether and how it ends can be asked of every configuration on the way.
-/

namespace TapeLang

variable {L : Type}

/-- The verdict on statements that are executed directly. -/
def Progress.outcome : Progress L → Verdict L
  | .running c => .unfinished c
  | .finished s => .finished s
  | .halted h => .stopped h

/-- The verdict is over when execution is. -/
theorem Progress.settled_outcome {r : Progress L} : r.outcome.Settled ↔ r.Settled := by
  cases r <;> exact Iff.rfl

theorem Progress.outcome_eq_finished {r : Progress L} {t : Interp L} :
    r.outcome = .finished t ↔ r = .finished t := by
  cases r <;> simp [outcome]

theorem Progress.state_outcome (r : Progress L) : r.outcome.state = r.state := by
  cases r <;> rfl

variable [Listener L]

namespace Config

variable {c d : Config L} {v w : Verdict L}

/-- Execution from here ends in a verdict. -/
def EndsIn (c : Config L) (v : Verdict L) : Prop :=
  v.Settled ∧ ∃ n, (c.advance n).outcome = v

/-- Once execution is over, its verdict stands. -/
theorem outcome_stable {n : Nat} (h : (c.advance n).outcome.Settled) (k : Nat) :
    (c.advance (n + k)).outcome = (c.advance n).outcome := by
  rw [advance_stable (Progress.settled_outcome.1 h)]

/-- Execution ends in one verdict at most. -/
theorem EndsIn.unique (h : c.EndsIn v) (h' : c.EndsIn w) : v = w := by
  obtain ⟨hv, n, rfl⟩ := h
  obtain ⟨hw, m, rfl⟩ := h'
  rw [← outcome_stable hv m, Nat.add_comm, outcome_stable hw n]

/-- Execution finishes after a number of steps. -/
theorem endsIn_finished_iff {t : Interp L} :
    c.EndsIn (.finished t) ↔ ∃ n, c.advance n = .finished t := by
  unfold EndsIn
  simp only [Progress.outcome_eq_finished]
  constructor
  · rintro ⟨-, h⟩
    exact h
  · intro h
    exact ⟨trivial, h⟩

/-- A step that goes on leads to the same verdict. -/
theorem endsIn_of_step (h : c.step = .running d) : c.EndsIn v ↔ d.EndsIn v := by
  have hlater (n : Nat) : c.advance (n + 1) = d.advance n := by rw [advance, h]
  constructor
  · rintro ⟨hv, n, hn⟩
    refine ⟨hv, n, ?_⟩
    rw [← hlater, outcome_stable (by rwa [hn])]
    exact hn
  · rintro ⟨hv, n, hn⟩
    refine ⟨hv, n + 1, ?_⟩
    rwa [hlater]

/-- When two executions are over together after any number of steps, and have then turned out as `R`
says, the one ends exactly when the other does, and `R` says how. -/
theorem ends_of_advances {R : Verdict L → Verdict L → Prop}
    (hsettled : ∀ n, (c.advance n).Settled ↔ (d.advance n).Settled)
    (hR : ∀ n, (c.advance n).Settled → R (c.advance n).outcome (d.advance n).outcome) :
    ((∃ v, c.EndsIn v) ↔ ∃ w, d.EndsIn w) ∧ ∀ v w, c.EndsIn v → d.EndsIn w → R v w := by
  refine ends_of_lockstep (fun _ => outcome_stable) (fun _ => outcome_stable) fun n => ?_
  rw [Progress.settled_outcome, Progress.settled_outcome]
  by_cases hover : (c.advance n).Settled
  · exact .inr ⟨hover, (hsettled n).1 hover, hR n hover⟩
  · exact .inl ⟨hover, fun h => hover ((hsettled n).2 h)⟩

end Config

namespace Interp

variable {s : Interp L} {nodes : List Node} {v : Verdict L}

/-- Executing statements directly, once, ends in a verdict. -/
def Executes (s : Interp L) (nodes : List Node) (v : Verdict L) : Prop :=
  v.Settled ∧ ∃ fuel, s.execute fuel nodes 1 = v

/-- Without listeners, statements are executed from where nothing but they is ahead. -/
theorem execute_eq_outcome (hs : s.hooks = #[]) (fuel : Nat) (nodes : List Node) :
    s.execute fuel nodes 1 = (Config.advance fuel ⟨s, nodes, false, []⟩).outcome := by
  have henter : Config.enter s nodes = ⟨s, nodes, false, []⟩ := by
    rw [Config.enter, hs, Hooks.idle_empty, Bool.not_true]
  rw [execute, henter]
  cases Config.advance fuel ⟨s, nodes, false, []⟩ <;> rfl

theorem executes_iff (hs : s.hooks = #[]) :
    s.Executes nodes v ↔ Config.EndsIn ⟨s, nodes, false, []⟩ v := by
  unfold Executes Config.EndsIn
  simp only [execute_eq_outcome hs]

end Interp

end TapeLang
