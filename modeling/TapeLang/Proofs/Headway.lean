import TapeLang.Proofs.Single

/-!
# Headway

A loop with an empty body starts no statement, so on a cell that is not zero it turns for ever and
nobody hears of it. This is the only way in which execution makes no headway: otherwise every few
steps another statement is started, until execution is over.
-/

namespace TapeLang

variable {L : Type} [Listener L]

namespace Config

variable {c d : Config L}

/-- Execution is between two passes over an empty body, and the cell of the loop is not zero. -/
structure Spins (c : Config L) : Prop where
  rest_nil : c.rest = []
  empty_body : ∃ l outer, c.loops = l :: outer ∧ l.body = []
  cell_ne : c.state.cell ≠ 0

/-- One turn of such a loop leads to the next. -/
theorem Spins.step (h : c.Spins) : ∃ d, c.step = .running d ∧ d.Spins := by
  obtain ⟨s, rest, traced, loops⟩ := c
  obtain ⟨hover, ⟨l, outer, hloops, hbody⟩, hcell⟩ := h
  simp only at hover hloops hcell
  subst hover hloops
  refine ⟨⟨s, l.body, !s.hooks.idle, l :: outer⟩, ?_, hbody, ⟨l, outer, rfl, hbody⟩, hcell⟩
  exact if_neg hcell

theorem Spins.advance (h : c.Spins) (m : Nat) : ∃ d, c.advance m = .running d ∧ d.Spins := by
  induction m with
  | zero => exact ⟨c, rfl, h⟩
  | succ m ih =>
    obtain ⟨d, hd, hspins⟩ := ih
    rw [advance_succ hd]
    exact hspins.step

/-- Steps are taken one part after the other. -/
theorem advance_add {m : Nat} (h : c.advance m = .running d) (n : Nat) :
    c.advance (m + n) = d.advance n := by
  induction n with
  | zero => exact h
  | succ n ih =>
    rw [← Nat.add_assoc]
    rcases d.advance_succ_cases n with ⟨e, he, hnext⟩ | ⟨hover, hnext⟩
    · rw [hnext, advance_succ (ih.trans he)]
    · rw [hnext, advance_stable (ih.symm ▸ hover), ih]

/-- A loop that is left is over, together with the pass around it or not. -/
theorem leave_cases (s : Interp L) (l : ActiveLoop) (outer : List ActiveLoop) :
    (leave s l outer).Settled ∨
      ∃ t, leave s l outer = .running ⟨t, l.rest, l.traced, outer⟩ := by
  rw [leave]
  cases s.announce (.left l.node) with
  | error h => exact .inl trivial
  | ok t =>
    simp only
    cases t.pop.announceAfter l.traced l.node with
    | error h => exact .inl trivial
    | ok u => exact .inr ⟨u, rfl⟩

/-- Sooner or later execution is over, spins, or comes to the next statement. -/
theorem exists_next (c : Config L) :
    ∃ m, (c.advance m).Settled ∨ ∃ d, c.advance m = .running d ∧
      d.state.steps = c.state.steps ∧ (d.Spins ∨ d.rest ≠ []) := by
  obtain ⟨s, rest, traced, loops⟩ := c
  -- without a statement left, each step leaves a loop, unless it turns one
  induction loops generalizing s rest traced with
  | nil =>
    cases rest with
    | nil => exact ⟨1, .inl trivial⟩
    | cons n rest => exact ⟨0, .inr ⟨_, rfl, rfl, .inr (List.cons_ne_nil n rest)⟩⟩
  | cons l outer ih =>
    cases rest with
    | cons n rest => exact ⟨0, .inr ⟨_, rfl, rfl, .inr (List.cons_ne_nil n rest)⟩⟩
    | nil =>
      by_cases hcell : s.cell = 0
      · have hstep : step ⟨s, [], traced, l :: outer⟩ = leave s l outer := if_pos hcell
        have hone : advance 1 ⟨s, [], traced, l :: outer⟩ = leave s l outer :=
          (advance_succ rfl).trans hstep
        rcases leave_cases s l outer with hover | ⟨t, ht⟩
        · exact ⟨1, .inl (by rwa [hone])⟩
        · have hsteps : t.steps = s.steps := by
            have h := step_steps ⟨s, [], traced, l :: outer⟩
            rw [hstep, ht] at h
            exact h
          obtain ⟨m, hm⟩ := ih t l.rest l.traced
          refine ⟨1 + m, ?_⟩
          rw [advance_add (hone.trans ht)]
          rcases hm with hm | ⟨d, hd, hcount, hnext⟩
          · exact .inl hm
          · exact .inr ⟨d, hd, hcount.trans hsteps, hnext⟩
      · have hstep : step ⟨s, [], traced, l :: outer⟩ =
            .running ⟨s, l.body, !s.hooks.idle, l :: outer⟩ := if_neg hcell
        by_cases hbody : l.body = []
        · exact ⟨0, .inr ⟨_, rfl, rfl, .inl ⟨rfl, ⟨l, outer, rfl, hbody⟩, hcell⟩⟩⟩
        · exact ⟨1, .inr ⟨_, (advance_succ rfl).trans hstep, rfl, .inr hbody⟩⟩

/-- Sooner or later execution is over, spins, or has started any number of statements and comes to
one more. -/
theorem exists_headway (c : Config L) (k : Nat) :
    ∃ m, (c.advance m).Settled ∨ ∃ d, c.advance m = .running d ∧
      (d.Spins ∧ d.state.steps ≤ c.state.steps + k ∨
        d.rest ≠ [] ∧ d.state.steps = c.state.steps + k) := by
  induction k with
  | zero =>
    obtain ⟨m, hm | ⟨d, hd, hcount, hspins | hnext⟩⟩ := c.exists_next
    · exact ⟨m, .inl hm⟩
    · exact ⟨m, .inr ⟨d, hd, .inl ⟨hspins, Nat.le_of_eq hcount⟩⟩⟩
    · exact ⟨m, .inr ⟨d, hd, .inr ⟨hnext, hcount⟩⟩⟩
  | succ k ih =>
    obtain ⟨m, hm | ⟨d, hd, ⟨hspins, hcount⟩ | ⟨hnext, hcount⟩⟩⟩ := ih
    · exact ⟨m, .inl hm⟩
    · exact ⟨m, .inr ⟨d, hd, .inl ⟨hspins, by omega⟩⟩⟩
    · have hstarting : d.moment.starting = 1 := by
        obtain ⟨n, rest, hrest⟩ := List.exists_cons_of_ne_nil hnext
        rw [moment, hrest]
        rfl
      have hsteps := d.step_steps
      cases hstep : d.step with
      | finished | halted => exact ⟨m + 1, .inl (by rw [advance_succ hd, hstep]; trivial)⟩
      | running e =>
        rw [hstep, hstarting] at hsteps
        have hsteps : e.state.steps = d.state.steps + 1 := hsteps
        have he : c.advance (m + 1) = .running e := (advance_succ hd).trans hstep
        obtain ⟨j, hj | ⟨f, hf, hcount', hspins | hnext⟩⟩ := e.exists_next
        · exact ⟨m + 1 + j, .inl (by rwa [advance_add he])⟩
        · exact ⟨m + 1 + j, .inr ⟨f, (advance_add he j).trans hf, .inl ⟨hspins, by omega⟩⟩⟩
        · exact ⟨m + 1 + j, .inr ⟨f, (advance_add he j).trans hf, .inr ⟨hnext, by omega⟩⟩⟩

end Config

namespace Interp

variable {s : Interp L} {tape : Tape} {count : Nat}

/-- The run comes to spin after it has started this many statements. -/
def Stalls (s : Interp L) (tape : Tape) (count : Nat) : Prop :=
  ∃ p c m d, s.parse = .ok p ∧ s.begin p tape = .ok c ∧ c.advance m = .running d ∧ d.Spins ∧
    d.state.steps = s.steps + count

/-- A run that comes to spin never ends. -/
theorem Stalls.not_endsIn (h : s.Stalls tape count) (v : Verdict L) : ¬s.EndsIn tape v := by
  obtain ⟨p, c, m, d, hp, hc, hd, hspins, -⟩ := h
  rintro ⟨hv, fuel, rfl⟩
  -- the run would be over after more steps as well, but it spins
  have hrun : s.run (m + fuel) tape = s.run fuel tape := by rw [Nat.add_comm, run_stable hv]
  obtain ⟨e, he, -⟩ := hspins.advance fuel
  rw [← hrun, run, hp] at hv
  simp only [runProgram, hc, Config.advance_add hd, he] at hv
  exact hv

/-- A run that starts a bounded number of statements comes to an end or to spin. -/
theorem endsIn_or_stalls (s : Interp L) (tape : Tape) (bound : Nat)
    (hbelow : ∀ fuel, (s.run fuel tape).state.steps < s.steps + bound) :
    (∃ v, s.EndsIn tape v) ∨ ∃ count < bound, s.Stalls tape count := by
  cases hp : s.parse with
  | error e => exact .inl ⟨.unparsed e s, trivial, 0, by rw [run, hp]⟩
  | ok p =>
    cases hc : s.begin p tape with
    | error halt =>
      exact .inl ⟨.stopped halt, trivial, 0, by rw [run, hp]; simp only [runProgram, hc]⟩
    | ok c =>
      have hrun := run_of_begin hp hc
      have hzero : c.state.steps = s.steps := (heard_of_announce_ok (begin_eq_ok hc).1).steps
      obtain ⟨m, hm | ⟨d, hd, hnext⟩⟩ := c.exists_headway bound
      · refine .inl ⟨s.run m tape, ?_, m, rfl⟩
        rw [hrun]
        exact Progress.settled_verdict.2 hm
      · have hlt := hbelow m
        rw [hrun, hd] at hlt
        have hlt : d.state.steps < s.steps + bound := hlt
        rcases hnext with ⟨hspins, -⟩ | ⟨-, hcount⟩
        · have hle := c.advance_steps_mono (Nat.zero_le m)
          simp only [hd] at hle
          have hle : c.state.steps ≤ d.state.steps := hle
          exact .inr ⟨d.state.steps - s.steps, by omega, p, c, m, d, hp, hc, hd, hspins, by omega⟩
        · omega

end Interp

end TapeLang
