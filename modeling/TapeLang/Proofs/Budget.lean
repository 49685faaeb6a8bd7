import TapeLang.Proofs.Limiter
import TapeLang.Proofs.RoundTrip

/-!
# The limit as a budget

How many statements a program needs decides whether the limiter stops it: what counts is the cut,
which is the limit itself for small limits and lies up to an interval above it for large ones. A run
without listeners never stops with an exit code, so only the limiter's stop looks like one.
-/

namespace TapeLang

/-! ## Straight programs -/

/-- A list of increments. -/
def Node.Straight (ns : List Node) : Prop := ∀ n ∈ ns, ∃ l, n = .op .increment l

theorem Node.SameShape.straight {ns ms : List Node} (h : SameShape ns ms) (hs : Straight ns) :
    Straight ms ∧ ms.length = ns.length := by
  induction h with
  | nil => exact ⟨hs, rfl⟩
  | @op o l l' as bs rest ih =>
    obtain ⟨hfirst, hrest⟩ := List.forall_mem_cons.1 hs
    obtain ⟨place, hop⟩ := hfirst
    obtain ⟨htail, hlen⟩ := ih hrest
    cases hop
    exact ⟨List.forall_mem_cons.2 ⟨⟨l', rfl⟩, htail⟩, congrArg (· + 1) hlen⟩
  | loop =>
    obtain ⟨place, hop⟩ := (List.forall_mem_cons.1 hs).1
    cases hop
  | bare =>
    obtain ⟨place, hop⟩ := (List.forall_mem_cons.1 hs).1
    cases hop

/-- A straight program is over after as many statements as it has. -/
theorem Config.advance_straight {L : Type} [Listener L] {ns : List Node} (h : Node.Straight ns)
    (s : Interp L) : ∃ t, advance (ns.length + 1) ⟨s, ns, false, []⟩ = .finished t ∧
      t.steps = s.steps + ns.length := by
  induction ns generalizing s with
  | nil => exact ⟨s, rfl, rfl⟩
  | cons n ns ih =>
    obtain ⟨⟨place, rfl⟩, hrest⟩ := List.forall_mem_cons.1 h
    obtain ⟨u, hstep⟩ : ∃ u, step ⟨s, .op .increment place :: ns, false, []⟩ =
        .running ⟨u, ns, false, []⟩ := ⟨_, rfl⟩
    have hcount : u.steps = s.steps + 1 := by
      have hsteps := step_steps ⟨s, .op .increment place :: ns, false, []⟩
      rw [hstep] at hsteps
      exact hsteps
    obtain ⟨t, ht, hsteps⟩ := ih hrest u
    refine ⟨t, ?_, ?_⟩
    · rw [List.length_cons, advance, hstep]
      exact ht
    · rw [hsteps, hcount, List.length_cons]
      omega

/-- Without listeners a text of increments ends after one statement for each. -/
theorem Interp.exists_endsIn_straight {L : Type} [Listener L] {s : Interp L} (hs : s.hooks = #[])
    {n : Nat} (htext : s.source = String.ofList (List.replicate n '+')) (tape : Tape) :
    ∃ t, s.EndsIn tape (.finished t) ∧ t.steps = s.steps + n := by
  have hwritten (n : Nat) : Node.written (List.replicate n (.op .increment none)) =
      List.replicate n '+' := by
    induction n with
    | zero => simp [Node.written]
    | succ n ih => simp [List.replicate_succ, Node.written, ih, Op.symbol]
  have hplain (n : Nat) : Node.Plain (List.replicate n (.op .increment none)) := by
    induction n with
    | zero => simp [Node.Plain]
    | succ n ih => simpa [List.replicate_succ, Node.Plain] using ih
  have hdepth (n : Nat) : Node.depth (List.replicate n (.op .increment none)) = 0 := by
    induction n with
    | zero => simp [Node.depth]
    | succ n ih => simpa [List.replicate_succ, Node.depth] using ih
  obtain ⟨p, hp, hshape⟩ :=
    exists_parse_of_written s.file (hplain n) (hdepth n ▸ Nat.zero_le _)
  obtain ⟨hstraight, hlen⟩ := hshape.straight fun m hm => ⟨none, List.eq_of_mem_replicate hm⟩
  have hparse : s.parse = .ok p := by rw [parse, htext, ← hwritten, hp]
  have hload : (s.load p tape).hooks = #[] := hs
  have hbegin := begin_untraced hs p tape
  obtain ⟨t, ht, hsteps⟩ := Config.advance_straight hstraight (s.load p tape)
  have hquiet : t.hooks = #[] := by
    have hhooks := Config.advance_of_no_hooks
      (c := ⟨s.load p tape, p.statements, false, []⟩) hload (p.statements.length + 1)
    rwa [ht] at hhooks
  refine ⟨t.pop, ⟨trivial, p.statements.length + 1, ?_⟩, ?_⟩
  · rw [run_of_begin hparse hbegin, ht, Progress.verdict, conclude_of_no_hooks hquiet]
  · rw [hlen, List.length_replicate] at hsteps
    exact hsteps

namespace Interp

/-- Without listeners nobody asks for an exit, unless the sink does. -/
theorem not_exit_of_no_hooks {L : Type} [Listener L] {s t : Interp L} {tape : Tape} {code : Int}
    (h : s.hooks = #[]) (hk : s.sink.Ordinary) :
    ¬s.EndsIn tape (.stopped ⟨.exit code, t⟩) := by
  rintro ⟨-, fuel, hrun⟩
  obtain ⟨f, hf⟩ := (run_of_no_hooks h fuel tape).2 hk (.exit code) (by rw [hrun]; rfl)
  cases hf

variable {s : Interp Observer} {tape : Tape} {limit cut : Nat}

/-- The limiter stops a run exactly when the program needs as many statements as the cut. -/
theorem Limited.exit_iff (h : s.Limited limit) (hk : s.sink.Ordinary)
    (hcut : StepLimit.IsCut limit cut) {w : Verdict Observer}
    (hw : (s.hush s.journal).EndsIn tape w) :
    (∃ t, s.EndsIn tape (.stopped ⟨.exit 124, t⟩)) ↔ cut ≤ w.state.steps := by
  constructor
  · rintro ⟨t, ht⟩
    by_contra hlt
    obtain ⟨v, hv, halike⟩ := h.exists_alike hcut hw (Nat.lt_of_not_le hlt)
    obtain rfl := hv.unique ht
    cases halike with
    | stopped => exact not_exit_of_no_hooks (s := s.hush s.journal) rfl hk hw
  · intro hle
    obtain ⟨hsettled, fuel, rfl⟩ := hw
    obtain ⟨_, d, n, t, _, -, -, -, -, hends, -⟩ := h.exists_stopped_of_le hcut ⟨fuel, hle⟩
    exact ⟨t, hends⟩

/-- A program that needs fewer statements than the cut runs to its end with the limiter, with all of
its output and its tape. One that needs as many or more is stopped with exit code 124, the limit
itself apart, where it is the cut. -/
theorem run_budgeted (s : Interp Observer) (tape : Tape) {limit cut : Nat} (h : s.Limited limit)
    (hk : s.sink.Ordinary) (hcut : StepLimit.IsCut limit cut) {w : Verdict Observer}
    (hw : ({ s with hooks := #[] } : Interp Observer).EndsIn tape w) :
    (w.state.steps < cut → ∃ v, s.EndsIn tape v ∧ v.Alike w) ∧
      (¬(w.state.steps = limit ∧ limit = cut) →
        ((∃ t, s.EndsIn tape (.stopped ⟨.exit 124, t⟩)) ↔ cut ≤ w.state.steps)) :=
  ⟨h.exists_alike hcut hw, fun _ => h.exit_iff hk hcut hw⟩

/-- With a limit of five, three increments are made, and seven are not. -/
theorem run_budgeted_straight :
    let s (n : Nat) : Interp Observer :=
      { source := String.ofList (List.replicate n '+'), file := "a",
        hooks := #[⟨.every 5 (by decide), .limiter 5, 0⟩] }
    let tape : Tape := ⟨2, Vector.replicate 2 0, 1⟩
    (∀ n, (s n).Limited 5 ∧ (s n).sink.Ordinary) ∧ StepLimit.IsCut 5 5 ∧
      (∃ t, (s 3).EndsIn tape (.finished t)) ∧
      ∃ t, (s 7).EndsIn tape (.stopped ⟨.exit 124, t⟩) := by
  intro s tape
  have hlimited (n : Nat) : (s n).Limited 5 := ⟨by decide, rfl, rfl⟩
  have hordinary (n : Nat) : (s n).sink.Ordinary := Sink.open_default.ordinary
  have hcut : StepLimit.IsCut 5 5 := ⟨⟨by decide, Nat.le_refl 5⟩, fun m hm => hm.2⟩
  have hquiet (n : Nat) : ∃ t, ({ s n with hooks := #[] } : Interp Observer).EndsIn tape
      (.finished t) ∧ t.steps = 0 + n := exists_endsIn_straight rfl rfl tape
  refine ⟨fun n => ⟨hlimited n, hordinary n⟩, hcut, ?_, ?_⟩
  · obtain ⟨t, ht, hsteps⟩ := hquiet 3
    have hlt : t.steps < 5 := by omega
    obtain ⟨v, hv, halike⟩ := (run_budgeted (s 3) tape (hlimited 3) (hordinary 3) hcut ht).1 hlt
    cases halike with
    | finished => exact ⟨_, hv⟩
  · obtain ⟨t, ht, hsteps⟩ := hquiet 7
    have hsteps : (Verdict.finished t).state.steps = 7 := hsteps
    exact ((run_budgeted (s 7) tape (hlimited 7) (hordinary 7) hcut ht).2 (by omega)).2 (by omega)

/-- The limit is not the number of statements that a program may need. With a limit of 1001 the
program of 1002 increments is not stopped, for the cut is at 2000. With a limit of one the program
of a single increment is stopped. -/
theorem limit_differs_from_budget :
    let above : Interp Observer :=
      { source := String.ofList (List.replicate 1002 '+'), file := "a",
        hooks := #[⟨.every 1000 (by decide), .limiter 1001, 0⟩] }
    let equal : Interp Observer :=
      { source := "+", file := "a", hooks := #[⟨.every 1 (by decide), .limiter 1, 0⟩] }
    let tape : Tape := ⟨2, Vector.replicate 2 0, 1⟩
    above.Limited 1001 ∧
      (∃ w, ({ above with hooks := #[] } : Interp Observer).EndsIn tape w ∧ w.state.steps = 1002 ∧
        ¬∃ t, above.EndsIn tape (.stopped ⟨.exit 124, t⟩)) ∧
    equal.Limited 1 ∧
      ∃ w, ({ equal with hooks := #[] } : Interp Observer).EndsIn tape w ∧ w.state.steps = 1 ∧
        ∃ t, equal.EndsIn tape (.stopped ⟨.exit 124, t⟩) := by
  intro above equal tape
  have habove : above.Limited 1001 := ⟨by decide, rfl, rfl⟩
  have hequal : equal.Limited 1 := ⟨by decide, rfl, rfl⟩
  have hcut : StepLimit.IsCut 1001 2000 := by
    refine ⟨⟨by decide, by decide⟩, ?_⟩
    rintro m ⟨hdvd, hle⟩
    obtain ⟨k, rfl⟩ : 1000 ∣ m := hdvd
    omega
  have hcut' : StepLimit.IsCut 1 1 := ⟨⟨by decide, Nat.le_refl 1⟩, fun m hm => hm.2⟩
  obtain ⟨t, ht, hsteps⟩ := exists_endsIn_straight
    (s := ({ above with hooks := #[] } : Interp Observer)) (n := 1002) rfl rfl tape
  obtain ⟨u, hu, hsteps'⟩ := exists_endsIn_straight
    (s := ({ equal with hooks := #[] } : Interp Observer)) (n := 1) rfl rfl tape
  have hsteps : (Verdict.finished t).state.steps = 1002 := hsteps
  have hsteps' : (Verdict.finished u).state.steps = 1 := hsteps'
  refine ⟨habove, ⟨_, ht, hsteps, ?_⟩, hequal, _, hu, hsteps', ?_⟩
  · rw [habove.exit_iff Sink.open_default.ordinary hcut ht]
    omega
  · rw [hequal.exit_iff Sink.open_default.ordinary hcut' hu]
    omega

end Interp

end TapeLang
