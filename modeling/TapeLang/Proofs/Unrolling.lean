import TapeLang.Proofs.Direct
import TapeLang.Proofs.Joining

/-!
# Loops unrolled

Execution keeps the active loops on a stack and goes over their bodies in passes. The code that is
left tells the same without a stack: a loop whose cell is not zero stands for its body followed by
the same loop, and one whose cell is zero for nothing. Every step of execution is a step of the code
that is left, if a statement is counted when it has ended. So a loop does what its body and then the
same loop do, and where it ends the cell is zero.
-/

namespace TapeLang

variable {L : Type}

/-! ## The code that is left -/

/-- The state apart from the count and the frames. -/
def Interp.bare (s : Interp L) : Interp L := { s with steps := 0, stack := [] }

/-- The statements that the pass at hand has still to start, and for each active loop the loop
itself, whose cell is to be tested again, and the statements after it. -/
def Config.code (c : Config L) : List Node :=
  c.rest ++ c.loops.flatMap fun l => l.node :: l.rest

/-- What execution has come to, as the code that is left tells it. -/
inductive Unrolled (L : Type) where
  /-- Code is left, and a number of statements have ended. -/
  | going (code : List Node) (s : Interp L) (ended : Int)
  | finished (s : Interp L) (ended : Int)
  | stopped (stop : Stop) (s : Interp L)

/-- The state that execution has come to. -/
def Unrolled.state : Unrolled L → Interp L
  | .going _ s _ => s
  | .finished s _ => s
  | .stopped _ s => s

/-- The same configuration. The statements that have ended are those that have been started, but for
the active loops. -/
def Config.unroll (c : Config L) : Unrolled L :=
  .going c.code c.state.bare (c.state.steps - c.loops.length)

/-- The same progress. -/
def Progress.unroll : Progress L → Unrolled L
  | .running c => c.unroll
  | .finished s => .finished s.bare s.steps
  | .halted h => .stopped h.stop h.state.bare

theorem Progress.state_unroll (r : Progress L) : r.unroll.state = r.state.bare := by
  cases r <;> rfl

namespace Unrolled

/-- One step of the code that is left. Nothing happens any more once execution is over. -/
def step : Unrolled L → Unrolled L
  | .going [] s ended => .finished s ended
  | .going (.op o l :: code) s ended =>
    match s.operate o l with
    | .ok t => .going code t (ended + 1)
    | .error h => .stopped h.stop h.state
  | .going (.loop l body :: code) s ended =>
    if s.cell = 0 then .going code s (ended + 1)
    else .going (body ++ .loop l body :: code) s ended
  | .going (.bare l :: _) s _ => .stopped (s.refuse l).stop s
  | r => r

theorem step_skip {s : Interp L} (hz : s.cell = 0) (l : Location) (body code : List Node)
    (ended : Int) : step (.going (.loop l body :: code) s ended) = .going code s (ended + 1) :=
  if_pos hz

theorem step_enter {s : Interp L} (hz : s.cell ≠ 0) (l : Location) (body code : List Node)
    (ended : Int) :
    step (.going (.loop l body :: code) s ended) =
      .going (body ++ .loop l body :: code) s ended :=
  if_neg hz

theorem iterate_finished (n : Nat) (s : Interp L) (ended : Int) :
    step^[n] (.finished s ended) = .finished s ended :=
  Function.iterate_fixed rfl n

theorem iterate_stopped (n : Nat) (stop : Stop) (s : Interp L) :
    step^[n] (.stopped stop s) = .stopped stop s :=
  Function.iterate_fixed rfl n

/-- With a loop at its end, code is left until the cell of that loop is found to be zero. -/
theorem cell_of_finished {before : List Node} {l : Location} {body : List Node} {s t : Interp L}
    {ended total : Int} {n : Nat}
    (h : step^[n] (.going (before ++ [Node.loop l body]) s ended) = .finished t total) :
    t.cell = 0 := by
  induction n generalizing before s ended with
  | zero => cases h
  | succ n ih =>
    rw [Function.iterate_succ_apply] at h
    cases before with
    | nil =>
      rw [List.nil_append] at h
      by_cases hz : s.cell = 0
      · rw [step_skip hz] at h
        cases n with
        | zero => cases h
        | succ n =>
          rw [Function.iterate_succ_apply, step, iterate_finished] at h
          cases h
          exact hz
      · rw [step_enter hz] at h
        exact ih h
    | cons m before =>
      rw [List.cons_append] at h
      cases m with
      | op o place =>
        rw [step] at h
        cases ho : s.operate o place with
        | ok u =>
          simp only [ho] at h
          exact ih h
        | error halt =>
          simp only [ho, iterate_stopped] at h
          cases h
      | loop place inner =>
        by_cases hz : s.cell = 0
        · rw [step_skip hz] at h
          exact ih h
        · rw [step_enter hz, ← List.cons_append, ← List.append_assoc] at h
          exact ih h
      | bare place =>
        rw [step, iterate_stopped] at h
        cases h

end Unrolled

namespace Interp

theorem alter_bare (s : Interp L) (f : Tape → Tape) : s.bare.alter f = (s.alter f).bare := by
  unfold alter bare
  cases s.bench <;> rfl

/-- Operations take no notice of the count and the frames. -/
theorem operate_bare (s : Interp L) (o : Op) (l : Option Location) :
    s.bare.operate o l = match s.operate o l with
      | .ok t => .ok t.bare
      | .error h => .error ⟨h.stop, h.state.bare⟩ := by
  cases o with
  | left | right | increment | decrement => exact congrArg Except.ok (s.alter_bare _)
  | output =>
    have hcell : s.bare.cell = s.cell := rfl
    have hsink : s.bare.sink = s.sink := rfl
    rw [operate, operate, emit, emit, hcell, hsink]
    cases s.sink.refusal s.sink.calls <;> rfl
  | input => rfl

end Interp

/-! ## Loops that are not too deep -/

namespace Config

/-- The next statement is a loop to be entered, and as many are active as may be. -/
def TooDeep (c : Config L) : Prop :=
  (∃ l body rest, c.rest = .loop l body :: rest) ∧ c.state.cell ≠ 0 ∧ maxActive ≤ c.loops.length

/-- However often the active loops are turned, no more loops will be active than may be. -/
def Shallow : List Node → List ActiveLoop → Prop
  | rest, [] => Node.depth rest ≤ maxActive
  | rest, l :: outer =>
    Node.depth rest + (outer.length + 1) ≤ maxActive ∧ Shallow (l.node :: l.rest) outer

theorem Shallow.depth_le {rest : List Node} {loops : List ActiveLoop} (h : Shallow rest loops) :
    Node.depth rest + loops.length ≤ maxActive := by
  cases loops with
  | nil => exact h
  | cons l outer => exact h.1

theorem Shallow.mono {rest rest' : List Node} {loops : List ActiveLoop} (h : Shallow rest loops)
    (hle : Node.depth rest' ≤ Node.depth rest) : Shallow rest' loops := by
  cases loops with
  | nil => exact Nat.le_trans hle h
  | cons l outer => exact ⟨Nat.le_trans (Nat.add_le_add_right hle _) h.1, h.2⟩

theorem Shallow.tail {n : Node} {rest : List Node} {loops : List ActiveLoop}
    (h : Shallow (n :: rest) loops) : Shallow rest loops := by
  apply h.mono
  cases n with
  | loop =>
    rw [Node.depth]
    exact Nat.le_max_right _ _
  | op | bare => simp [Node.depth]

/-- Where a loop may be entered, there is room for its body. -/
theorem Shallow.inside {l : ActiveLoop} {outer : List ActiveLoop}
    (h : Shallow (l.node :: l.rest) outer) : Shallow l.body (l :: outer) := by
  have hdepth := h.depth_le
  rw [ActiveLoop.node, Node.depth] at hdepth
  refine ⟨?_, h⟩
  omega

theorem Shallow.not_tooDeep {c : Config L} (h : Shallow c.rest c.loops) : ¬c.TooDeep := by
  rintro ⟨⟨l, body, rest, hrest⟩, -, hdeep⟩
  have hdepth := h.depth_le
  rw [hrest, Node.depth] at hdepth
  omega

variable [Listener L] {c d : Config L}

theorem TooDeep.step_eq (h : c.TooDeep) (hs : c.state.hooks = #[]) :
    ∃ halt, c.step = .halted halt := by
  obtain ⟨s, rest, traced, loops⟩ := c
  obtain ⟨⟨l, body, rest, rfl⟩, hz, hdeep⟩ := h
  exact ⟨_, step_deep hs hz hdeep l body⟩

/-! ## Steps -/

/-- A step of execution is a step of the code that is left. -/
theorem step_unroll (hs : c.state.hooks = #[]) (hdeep : ¬c.TooDeep) :
    c.step.unroll = c.unroll.step := by
  obtain ⟨s, rest, traced, loops⟩ := c
  -- what has been started has ended, unless it is a loop that is entered
  have hcount : ((s.steps + 1 : Nat) : Int) - loops.length = s.steps - loops.length + 1 := by
    omega
  cases rest with
  | nil =>
    cases loops with
    | nil => simp [step, Progress.unroll, unroll, code, Unrolled.step]
    | cons l outer =>
      by_cases hz : s.cell = 0
      · have hbare : s.bare.cell = 0 := hz
        have hleft : (s.steps : Int) - outer.length = s.steps - (l :: outer).length + 1 := by
          rw [List.length_cons]
          omega
        rw [step_leave hs hz]
        exact (congrArg (Unrolled.going _ _) hleft).trans (Unrolled.step_skip hbare ..).symm
      · have hbare : s.bare.cell ≠ 0 := hz
        rw [step_turn hs hz]
        exact (Unrolled.step_enter hbare ..).symm
  | cons n rest =>
    cases n with
    | op o l =>
      have hoperate := (s.start (.op o l)).operate_bare o l
      have hstart : (s.start (.op o l)).bare = s.bare := rfl
      rw [step_op hs, unroll, code, List.cons_append, Unrolled.step]
      rw [hstart] at hoperate
      cases ho : (s.start (.op o l)).operate o l with
      | ok t =>
        obtain ⟨tape, bench, sink, -, rfl⟩ := Interp.operate_ok ho
        simp only [hoperate, ho]
        exact congrArg (Unrolled.going _ _) hcount
      | error halt =>
        simp only [hoperate, ho]
        rfl
    | loop l body =>
      by_cases hz : s.cell = 0
      · have hbare : s.bare.cell = 0 := hz
        rw [step_skip hs hz]
        exact (congrArg (Unrolled.going _ _) hcount).trans (Unrolled.step_skip hbare ..).symm
      · have hbare : s.bare.cell ≠ 0 := hz
        have hroom : ¬maxActive ≤ loops.length := fun h => hdeep ⟨⟨l, body, rest, rfl⟩, hz, h⟩
        have hentered : ((s.steps + 1 : Nat) : Int) - (loops.length + 1 : Nat) =
            s.steps - loops.length := by omega
        rw [step_enter hs hz hroom]
        exact (congrArg (Unrolled.going _ _) hentered).trans (Unrolled.step_enter hbare ..).symm
    | bare l =>
      rw [step_bare hs]
      rfl

/-- A step leaves no more loops to be entered than there were. -/
theorem step_shallow (hs : c.state.hooks = #[]) (h : Shallow c.rest c.loops)
    (hstep : c.step = .running d) : Shallow d.rest d.loops := by
  obtain ⟨s, rest, traced, loops⟩ := c
  cases rest with
  | nil =>
    cases loops with
    | nil => cases hstep
    | cons l outer =>
      by_cases hz : s.cell = 0
      · rw [step_leave hs hz] at hstep
        cases hstep
        exact h.2.tail
      · rw [step_turn hs hz] at hstep
        cases hstep
        exact h.2.inside
  | cons n rest =>
    cases n with
    | op o l =>
      rw [step_op hs] at hstep
      cases ho : (s.start (.op o l)).operate o l with
      | ok t =>
        rw [ho] at hstep
        cases hstep
        exact h.tail
      | error halt =>
        rw [ho] at hstep
        cases hstep
    | loop l body =>
      by_cases hz : s.cell = 0
      · rw [step_skip hs hz] at hstep
        cases hstep
        exact h.tail
      · by_cases hroom : maxActive ≤ loops.length
        · rw [step_deep hs hz hroom] at hstep
          cases hstep
        · rw [step_enter hs hz hroom] at hstep
          cases hstep
          exact Shallow.inside (l := ⟨l, body, rest, traced⟩) h
    | bare l =>
      rw [step_bare hs] at hstep
      cases hstep

/-- Execution is execution of the code that is left, as long as no loop is too deep. -/
theorem advance_unroll (hs : c.state.hooks = #[]) (n : Nat)
    (hdeep : ∀ m < n, ∀ d, c.advance m = .running d → ¬d.TooDeep) :
    (c.advance n).unroll = Unrolled.step^[n] c.unroll := by
  induction n generalizing c with
  | zero => rfl
  | succ n ih =>
    have hfirst := step_unroll hs (hdeep 0 n.succ_pos c rfl)
    rw [advance, Function.iterate_succ_apply, ← hfirst]
    cases hc : c.step with
    | running d =>
      have hd := advance_of_no_hooks hs 1
      rw [advance, hc] at hd
      refine ih hd fun m hm e he => hdeep (m + 1) (Nat.succ_lt_succ hm) e ?_
      rw [advance, hc]
      exact he
    | finished s => exact (Unrolled.iterate_finished n _ _).symm
    | halted halt => exact (Unrolled.iterate_stopped n _ _).symm

theorem advance_shallow (hs : c.state.hooks = #[]) (h : Shallow c.rest c.loops) {n : Nat}
    (hd : c.advance n = .running d) : Shallow d.rest d.loops := by
  induction n generalizing c with
  | zero =>
    cases hd
    exact h
  | succ n ih =>
    rw [advance] at hd
    cases hc : c.step with
    | running e =>
      have he := advance_of_no_hooks hs 1
      rw [advance, hc] at he
      rw [hc] at hd
      exact ih he (step_shallow hs h hc) hd
    | finished s =>
      rw [hc] at hd
      cases hd
    | halted halt =>
      rw [hc] at hd
      cases hd

/-- Execution that finishes has met no loop that was too deep. -/
theorem not_tooDeep_of_finished (hs : c.state.hooks = #[]) {n m : Nat} {t : Interp L}
    (hf : c.advance n = .finished t) (hd : c.advance m = .running d) : ¬d.TooDeep := by
  intro hdeep
  have hooks := advance_of_no_hooks hs m
  rw [hd] at hooks
  obtain ⟨halt, hhalt⟩ := hdeep.step_eq hooks
  have hlater : c.advance (m + 1) = .halted halt := (advance_succ hd).trans hhalt
  have hm := advance_stable (c := c) (n := m + 1) (by rw [hlater]; trivial) n
  have hn := advance_stable (c := c) (n := n) (by rw [hf]; trivial) (m + 1)
  rw [Nat.add_comm, hn, hf, hlater] at hm
  cases hm

end Config

/-! ## Executions that end even -/

/-- Two executions have ended even: both have finished after as many instructions, or both have been
stopped for the same reason, and the counts and the frames apart they have left the same state. -/
inductive EndsEven : Verdict L → Verdict L → Prop where
  | finished {s t : Interp L} (steps : t.steps = s.steps) (states : t.bare = s.bare) :
      EndsEven (.finished s) (.finished t)
  | stopped {h k : Halt L} (stop : k.stop = h.stop) (states : k.state.bare = h.state.bare) :
      EndsEven (.stopped h) (.stopped k)

/-- What has come to the same, the code that is left taken for it, is over or not alike. -/
theorem Progress.settled_of_unroll {q r : Progress L} (h : q.unroll = r.unroll) :
    q.Settled ↔ r.Settled := by
  cases q <;> cases r <;> first | exact Iff.rfl | cases h

/-- What has come to the same and is over has ended even. -/
theorem Progress.endsEven_of_unroll {q r : Progress L} (h : q.unroll = r.unroll)
    (hover : q.Settled) : EndsEven q.outcome r.outcome := by
  cases q with
  | running c => exact hover.elim
  | finished s =>
    cases r with
    | finished t =>
      obtain ⟨hstates, hsteps⟩ := Unrolled.finished.inj h
      exact .finished (Int.ofNat_inj.1 hsteps).symm hstates.symm
    | running | halted => cases h
  | halted halt =>
    cases r with
    | halted halt' =>
      obtain ⟨hstop, hstates⟩ := Unrolled.stopped.inj h
      exact .stopped hstop.symm hstates.symm
    | running | finished => cases h

variable [Listener L]

namespace Config

variable {c d : Config L}

/-- Where the same code is left and nothing is too deep, executions come to the same. -/
theorem advance_unroll_congr (hc : c.state.hooks = #[]) (hd : d.state.hooks = #[])
    (shallow : Shallow c.rest c.loops) (shallow' : Shallow d.rest d.loops)
    (h : c.unroll = d.unroll) (n : Nat) : (c.advance n).unroll = (d.advance n).unroll := by
  rw [advance_unroll hc n fun m _ e he => (advance_shallow hc shallow he).not_tooDeep,
    advance_unroll hd n fun m _ e he => (advance_shallow hd shallow' he).not_tooDeep, h]

/-- What always comes to the same ends alike. -/
theorem ends_of_unroll (h : ∀ n, (c.advance n).unroll = (d.advance n).unroll) :
    ((∃ v, c.EndsIn v) ↔ ∃ w, d.EndsIn w) ∧ ∀ v w, c.EndsIn v → d.EndsIn w → EndsEven v w :=
  ends_of_advances (fun n => Progress.settled_of_unroll (h n))
    fun n hover => Progress.endsEven_of_unroll (h n) hover

end Config

namespace Interp

variable {s t : Interp L} {before : List Node} {l : Location} {body : List Node}

/-- Where a loop has been executed last, the cell is zero. -/
theorem Executes.cell_eq_zero (hs : s.hooks = #[])
    (h : s.Executes (before ++ [Node.loop l body]) (.finished t)) : t.cell = 0 := by
  rw [executes_iff hs, Config.endsIn_finished_iff] at h
  obtain ⟨n, hn⟩ := h
  have hunroll := Config.advance_unroll (c := ⟨s, before ++ [Node.loop l body], false, []⟩) hs n
    fun m _ d hd => Config.not_tooDeep_of_finished hs hn hd
  rw [hn, Config.unroll, Config.code, List.flatMap_nil, List.append_nil] at hunroll
  have hbare : t.bare.cell = 0 := Unrolled.cell_of_finished hunroll.symm
  exact hbare

/-- On a cell that is zero a loop is counted and passed over. -/
theorem Executes.pass {nodes : List Node} (hs : s.hooks = #[])
    (h : s.Executes nodes (.finished t)) (hz : t.cell = 0) (l : Location) (body : List Node) :
    s.Executes (nodes ++ [Node.loop l body]) (.finished (t.start (.loop l body))) := by
  rw [executes_iff hs, Config.endsIn_finished_iff] at h ⊢
  obtain ⟨n, hn⟩ := h
  obtain ⟨m, traced, hm⟩ := Config.exists_end hn
  have ht : t.hooks = #[] := by
    have h := Config.advance_of_no_hooks (c := ⟨s, nodes, false, []⟩) hs n
    rwa [hn] at h
  have hfollow : Config.advance m ⟨s, nodes ++ [Node.loop l body], false, []⟩ =
      .running ⟨t, [.loop l body], traced, []⟩ := by
    have h := Config.advance_follow (c := ⟨s, nodes, false, []⟩) hs [.loop l body] m
      (by rw [hm]; rintro u ⟨⟩)
    rw [hm] at h
    exact h
  refine ⟨m + 2, ?_⟩
  rw [Config.advance_add hfollow, Config.advance, Config.step_skip ht hz]
  rfl

/-- Where a loop is entered, its body and then the same loop are ahead. -/
theorem advance_entered (hs : s.hooks = #[]) (hdepth : Node.depth body < Config.maxActive)
    (n : Nat) :
    (Config.advance n ⟨(s.start (.loop l body)).push (Frame.ofLoop l), body, false,
        [⟨l, body, [], false⟩]⟩).unroll =
      (Config.advance n ⟨s, body ++ [Node.loop l body], false, []⟩).unroll := by
  have hwhole : Config.Shallow [.loop l body] [] := by
    simpa [Config.Shallow, Node.depth, Nat.succ_le_iff] using hdepth
  apply Config.advance_unroll_congr
  · exact hs
  · exact hs
  · exact Config.Shallow.inside (l := ⟨l, body, [], false⟩) hwhole
  · simp only [Config.Shallow, Node.depth_append, Node.depth]
    omega
  · -- the loop has been started, and as it is active it has not ended
    have hcount : ((s.steps + 1 : Nat) : Int) - (1 : Nat) = s.steps - (0 : Nat) := by omega
    rw [Config.unroll, Config.unroll, Config.code, Config.code, List.flatMap_cons,
      List.flatMap_nil, List.append_nil, List.append_nil]
    exact congrArg (Unrolled.going _ _) hcount

/-- A loop whose cell is not zero can be unrolled. Its body and then the same loop do step for step
what it does once it has been entered, end exactly when it does, and end even with it. Where a loop
has been executed, the cell is zero, so that another loop right behind it is counted and does
nothing else. -/
theorem executes_unrolled (s : Interp L) (hs : s.hooks = #[]) (l : Location) (body : List Node) :
    (s.cell ≠ 0 → Node.depth body ≤ 199 →
      (∀ fuel, (s.execute (fuel + 1) [.loop l body] 1).state.bare =
          (s.execute fuel (body ++ [Node.loop l body]) 1).state.bare) ∧
        ((∃ v, s.Executes [.loop l body] v) ↔ ∃ w, s.Executes (body ++ [Node.loop l body]) w) ∧
        ∀ v w, s.Executes [.loop l body] v → s.Executes (body ++ [Node.loop l body]) w →
          EndsEven v w) ∧
      ∀ (before : List Node) (t : Interp L),
        s.Executes (before ++ [Node.loop l body]) (.finished t) →
          t.cell = 0 ∧ ∀ l' body',
            s.Executes (before ++ [Node.loop l body] ++ [Node.loop l' body'])
              (.finished (t.start (.loop l' body'))) := by
  constructor
  · intro hz hdepth
    have hroom : ¬Config.maxActive ≤ ([] : List ActiveLoop).length := by decide
    have henter : Config.step ⟨s, [.loop l body], false, []⟩ =
        .running ⟨(s.start (.loop l body)).push (Frame.ofLoop l), body, false,
          [⟨l, body, [], false⟩]⟩ := Config.step_enter hs hz hroom l body
    have hsmall : Node.depth body < Config.maxActive := by
      unfold Config.maxActive
      omega
    have hsame := advance_entered (l := l) hs hsmall
    constructor
    · intro fuel
      rw [execute_eq_outcome hs, execute_eq_outcome hs, Progress.state_outcome,
        Progress.state_outcome, Config.advance, henter, ← Progress.state_unroll,
        ← Progress.state_unroll]
      exact congrArg Unrolled.state (hsame fuel)
    · simp only [executes_iff hs, Config.endsIn_of_step henter]
      exact Config.ends_of_unroll hsame
  · intro before t h
    have hz := h.cell_eq_zero hs
    exact ⟨hz, fun l' body' => h.pass hs hz l' body'⟩

open Evaluation in
/-- The loop `[.->+[-]<]` on a cell that is two makes two passes, and counts itself once. With a
sink that closes after its first write it fails in the second pass, and so it does behind one pass
that is written out. -/
theorem executes_unrolled_in_second_pass :
    let body : List Node := [.op .output none, .op .decrement none, .op .right none,
      .op .increment none, .loop ⟨"a", 1, 6, ""⟩ [.op .decrement none], .op .left none]
    let loop : Node := .loop ⟨"a", 1, 1, ""⟩ body
    let g : Failure := .named "OSError" "disk full"
    let s : Interp Script := { tape := some ⟨3, #v[2, 0, 0], 0⟩ }
    let t : Interp Script := { s with
      steps := 15, tape := some ⟨3, #v[0, 0, 0], 0⟩, sink := { calls := 2, text := "\x02\x01" } }
    let limited : Interp Script := { s with sink := .closing 1 (.failure g) }
    s.hooks = #[] ∧ s.cell ≠ 0 ∧ Node.depth body ≤ 199 ∧
      (s.Executes [loop] (.finished t) ∧ t.cell = 0 ∧
        s.Executes [loop, loop] (.finished (t.start loop)) ∧
        ∃ w, s.Executes (body ++ [loop]) w ∧ EndsEven (.finished t) w) ∧
      ∃ h, h.stop = .failure g ∧ limited.Executes [loop] (.stopped h) ∧
        ∃ w, limited.Executes (body ++ [loop]) w ∧ EndsEven (.stopped h) w := by
  intro body loop g s t limited
  have hz : s.cell ≠ 0 := by decide
  have hdepth : Node.depth body ≤ 199 := by simp [body, Node.depth]
  have hfinished : s.Executes [loop] (.finished t) := ⟨trivial, 40, by simp [s, loop, body, t]⟩
  have hstopped : ∃ h, h.stop = .failure g ∧ limited.Executes [loop] (.stopped h) := by
    have hstop : (limited.execute 40 [loop] 1).stop? = some (.failure g) := by
      simp [limited, s, loop, body, Verdict.stop?]
    exact ⟨_, rfl, trivial, 40, Verdict.eq_stopped hstop⟩
  obtain ⟨h, hstop, hstopped⟩ := hstopped
  obtain ⟨-, hends, heven⟩ := (executes_unrolled s rfl ⟨"a", 1, 1, ""⟩ body).1 hz hdepth
  obtain ⟨-, hends', heven'⟩ := (executes_unrolled limited rfl ⟨"a", 1, 1, ""⟩ body).1 hz hdepth
  obtain ⟨hzero, hnext⟩ := (executes_unrolled s rfl ⟨"a", 1, 1, ""⟩ body).2 [] t hfinished
  obtain ⟨v, hv⟩ := hends.1 ⟨_, hfinished⟩
  obtain ⟨w, hw⟩ := hends'.1 ⟨_, hstopped⟩
  exact ⟨rfl, hz, hdepth, ⟨hfinished, hzero, hnext _ _, v, hv, heven _ _ hfinished hv⟩,
    h, hstop, hstopped, w, hw, heven' _ _ hstopped hw⟩

end Interp

end TapeLang
