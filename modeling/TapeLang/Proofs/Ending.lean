import TapeLang.Interp.Run

/-!
# Runs that end

A run is given a number of steps and may not be through with them. It ends in a verdict when some
number of steps is enough, and more steps than that make no difference. Two processes in lock step
end together. With no listeners at all, an announcement changes nothing.
-/

namespace TapeLang

/-- When two processes, unchanged once they are over, are over together after any number of steps
and are then related, the one ends exactly when the other does, and their ends are related. -/
theorem ends_of_lockstep {α β : Type} {f : Nat → α} {g : Nat → β} {ended : α → Prop}
    {ended' : β → Prop} {R : α → β → Prop} (hf : ∀ n, ended (f n) → ∀ k, f (n + k) = f n)
    (hg : ∀ n, ended' (g n) → ∀ k, g (n + k) = g n)
    (h : ∀ n, (¬ended (f n) ∧ ¬ended' (g n)) ∨ (ended (f n) ∧ ended' (g n) ∧ R (f n) (g n))) :
    ((∃ a, ended a ∧ ∃ n, f n = a) ↔ ∃ b, ended' b ∧ ∃ n, g n = b) ∧
      ∀ a b, (ended a ∧ ∃ n, f n = a) → (ended' b ∧ ∃ n, g n = b) → R a b := by
  refine ⟨⟨?_, ?_⟩, ?_⟩
  · rintro ⟨a, ha, n, rfl⟩
    rcases h n with ⟨hn, -⟩ | ⟨-, hb, -⟩
    · exact absurd ha hn
    · exact ⟨_, hb, n, rfl⟩
  · rintro ⟨b, hb, n, rfl⟩
    rcases h n with ⟨-, hn⟩ | ⟨ha, -, -⟩
    · exact absurd hb hn
    · exact ⟨_, ha, n, rfl⟩
  · rintro a b ⟨ha, n, rfl⟩ ⟨hb, m, rfl⟩
    -- both are over after as many steps as the slower one needs
    have hn : f (n + m) = f n := hf n ha m
    have hm : g (n + m) = g m := by rw [Nat.add_comm, hg m hb]
    rcases h (n + m) with ⟨hnot, -⟩ | ⟨-, -, hR⟩
    · rw [hn] at hnot
      exact absurd ha hnot
    · rwa [hn, hm] at hR

variable {L : Type}

/-- The run is over. -/
def Verdict.Settled : Verdict L → Prop
  | .unfinished _ => False
  | _ => True

/-- Execution is over. -/
def Progress.Settled : Progress L → Prop
  | .running _ => False
  | _ => True

variable [Listener L]

/-- A run on a tape ends in a verdict. -/
def Interp.EndsIn (s : Interp L) (tape : Tape) (v : Verdict L) : Prop :=
  v.Settled ∧ ∃ fuel, s.run fuel tape = v

namespace Config

/-- Once execution is over, more steps make no difference. -/
theorem advance_stable {n : Nat} {c : Config L} (h : (c.advance n).Settled) (k : Nat) :
    c.advance (n + k) = c.advance n := by
  induction n generalizing c with
  | zero => exact h.elim
  | succ n ih =>
    rw [Nat.add_right_comm, advance, advance]
    rw [advance] at h
    cases hs : c.step with
    | running c' =>
      rw [hs] at h
      exact ih h
    | finished s => rfl
    | halted halt => rfl

end Config

namespace Interp

variable {s : Interp L} {tape : Tape}

/-- Once a run is over, more steps make no difference. -/
theorem run_stable {n : Nat} (h : (s.run n tape).Settled) (k : Nat) :
    s.run (n + k) tape = s.run n tape := by
  rw [run, run]
  rw [run] at h
  cases hp : s.parse with
  | error e => rfl
  | ok p =>
    simp only [hp] at h ⊢
    rw [runProgram] at h
    rw [runProgram, runProgram]
    cases hb : s.begin p tape with
    | error halt => rfl
    | ok c =>
      simp only [hb] at h ⊢
      have hc : (c.advance n).Settled := by
        cases hc : c.advance n with
        | running c' => rw [hc] at h; exact h.elim
        | finished s' => trivial
        | halted halt => trivial
      rw [Config.advance_stable hc]

/-- A run ends in one verdict at most. -/
theorem EndsIn.unique {v v' : Verdict L} (h : s.EndsIn tape v) (h' : s.EndsIn tape v') :
    v = v' := by
  obtain ⟨hv, n, rfl⟩ := h
  obtain ⟨hv', m, rfl⟩ := h'
  rw [← run_stable hv m, Nat.add_comm, run_stable hv' n]

/-! ## Without listeners -/

/-- With nobody there, an announcement changes nothing. -/
theorem announce_of_no_hooks (h : s.hooks = #[]) (n : Notice) : s.announce n = .ok s := by
  have hround : s.round n = .ok s := by
    rw [round, roundFrom, dif_neg]
    rw [h]
    exact Nat.not_lt_zero 0
  rw [announce, hround]

theorem announceBefore_of_no_hooks (h : s.hooks = #[]) (traced : Bool) (n : Node) :
    s.announceBefore traced n = .ok s := by
  rw [announceBefore, announce_of_no_hooks h]
  cases traced with
  | true => exact announce_of_no_hooks h _
  | false => rfl

theorem announceAfter_of_no_hooks (h : s.hooks = #[]) (traced : Bool) (n : Node) :
    s.announceAfter traced n = .ok s := by
  rw [announceAfter, announce_of_no_hooks h, ite_self]

/-- A run without listeners begins with the program placed at the start of its code. -/
theorem begin_of_no_hooks {p : Program} (hh : s.hooks = #[]) :
    s.begin p tape = .ok (Config.enter (s.load p tape) p.statements) := by
  have hload : (s.load p tape).hooks = #[] := hh
  rw [begin, announce_of_no_hooks hload]
  rfl

/-- A run without listeners ends when its program does. -/
theorem conclude_of_no_hooks (h : s.hooks = #[]) : s.conclude = .finished s.pop := by
  rw [conclude, announce_of_no_hooks h]

end Interp

end TapeLang
