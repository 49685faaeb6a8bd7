import Mathlib.Data.List.Forall2
import Mathlib.Data.Option.Basic
import TapeLang.Proofs.Single

/-!
# Runs side by side

With nobody to listen, a step of execution does one of five things: it carries out an operation,
passes over a loop, goes into one, turns it, or leaves it. Two interpreters that are akin, in
whatever sense, stay so if each of the five keeps them akin; then they are akin after any number of
steps, and their runs turn out akin.

What kinship means is left open: which operations, places, counts and states correspond. It may be
that it is kept only where the first of the two runs comes to, so a condition on the tape and the
statements ahead goes with it.
-/

namespace TapeLang

variable {L : Type}

/-! ## Steps that nobody hears of -/

/-- An operation brings in no listener. -/
theorem Interp.hooks_of_operate {s t : Interp L} {o : Op} {l : Option Location}
    (h : s.operate o l = .ok t) : t.hooks = s.hooks := by
  obtain ⟨tape, bench, sink, -, rfl⟩ := operate_ok h
  rfl

namespace Config

variable [Listener L] {s : Interp L} {rest : List Node} {traced : Bool} {loops : List ActiveLoop}

/-- A statement is counted, and then it takes effect. -/
theorem step_cons (h : s.hooks = #[]) (n : Node) :
    step ⟨s, n :: rest, traced, loops⟩ = perform (s.start n) n rest traced loops := by
  have hstart : (s.start n).hooks = #[] := h
  rw [step, Interp.announceBefore_of_no_hooks hstart]

theorem step_op (h : s.hooks = #[]) (o : Op) (l : Option Location) :
    step ⟨s, .op o l :: rest, traced, loops⟩ =
      .ofResult ((s.start (.op o l)).operate o l) fun t => ⟨t, rest, traced, loops⟩ := by
  rw [step_cons h, perform]
  cases he : (s.start (.op o l)).operate o l with
  | error halt => rfl
  | ok t =>
    have ht : t.hooks = #[] := (Interp.hooks_of_operate he).trans h
    simp only [Interp.announceAfter_of_no_hooks ht]

/-- After an operation that succeeds, execution goes on behind it. -/
theorem advance_op (h : s.hooks = #[]) {t : Interp L} {o : Op} {l : Option Location}
    (ht : (s.start (.op o l)).operate o l = .ok t) (n : Nat) :
    advance (n + 1) ⟨s, .op o l :: rest, traced, loops⟩ = advance n ⟨t, rest, traced, loops⟩ := by
  rw [advance, step_op h, ht]
  rfl

/-- An operation that fails halts execution. -/
theorem advance_op_error (h : s.hooks = #[]) {halt : Halt L} {o : Op} {l : Option Location}
    (ht : (s.start (.op o l)).operate o l = .error halt) (n : Nat) :
    advance (n + 1) ⟨s, .op o l :: rest, traced, loops⟩ = .halted halt := by
  rw [advance, step_op h, ht]
  rfl

theorem step_bare (h : s.hooks = #[]) (l : Option Location) :
    step ⟨s, .bare l :: rest, traced, loops⟩ = .halted ((s.start (.bare l)).refuse l) := by
  rw [step_cons h, perform]

/-- A loop whose cell is zero is passed over. -/
theorem step_skip (h : s.hooks = #[]) (hz : s.cell = 0) (l : Location) (body : List Node) :
    step ⟨s, .loop l body :: rest, traced, loops⟩ =
      .running ⟨s.start (.loop l body), rest, traced, loops⟩ := by
  have hstart : (s.start (.loop l body)).hooks = #[] := h
  have hcell : (s.start (.loop l body)).cell = 0 := hz
  rw [step_cons h, perform, descend, if_pos hcell, Interp.announceAfter_of_no_hooks hstart]
  rfl

theorem step_deep (h : s.hooks = #[]) (hz : s.cell ≠ 0) (hd : maxActive ≤ loops.length)
    (l : Location) (body : List Node) :
    step ⟨s, .loop l body :: rest, traced, loops⟩ =
      .halted ⟨.failure .nesting, s.start (.loop l body)⟩ := by
  have hcell : (s.start (.loop l body)).cell ≠ 0 := hz
  rw [step_cons h, perform, descend, if_neg hcell, if_pos hd]

/-- A loop whose cell is not zero gets a frame, and its body is begun. -/
theorem step_enter (h : s.hooks = #[]) (hz : s.cell ≠ 0) (hd : ¬maxActive ≤ loops.length)
    (l : Location) (body : List Node) :
    step ⟨s, .loop l body :: rest, traced, loops⟩ =
      .running ⟨(s.start (.loop l body)).push (Frame.ofLoop l), body, false,
        ⟨l, body, rest, traced⟩ :: loops⟩ := by
  let t := (s.start (.loop l body)).push (Frame.ofLoop l)
  have ht : t.hooks = #[] := h
  have hcell : (s.start (.loop l body)).cell ≠ 0 := hz
  have hcell' : t.cell ≠ 0 := hz
  rw [step_cons h, perform, descend, if_neg hcell, if_neg hd, Interp.announce_of_no_hooks ht]
  simp only
  rw [turn, if_neg hcell', ht, Hooks.idle_empty]
  rfl

/-- At the end of a body the loop is turned while its cell is not zero. -/
theorem step_turn (h : s.hooks = #[]) (hz : s.cell ≠ 0) (l : ActiveLoop) :
    step ⟨s, [], traced, l :: loops⟩ = .running ⟨s, l.body, false, l :: loops⟩ := by
  rw [step, turn, if_neg hz, h, Hooks.idle_empty]
  rfl

/-- At the end of a body the loop is left when its cell is zero. -/
theorem step_leave (h : s.hooks = #[]) (hz : s.cell = 0) (l : ActiveLoop) :
    step ⟨s, [], traced, l :: loops⟩ = .running ⟨s.pop, l.rest, l.traced, loops⟩ := by
  have hpop : s.pop.hooks = #[] := h
  rw [step, turn, if_pos hz, leave, Interp.announce_of_no_hooks h]
  simp only [Interp.announceAfter_of_no_hooks hpop]
  rfl

end Config

/-- When two runs are over together after any number of steps, and have then turned out as `R` says,
the one ends exactly when the other does, and `R` says how. -/
theorem Interp.ends_of_runs [Listener L] {s t : Interp L} {tape tape' : Tape}
    {R : Verdict L → Verdict L → Prop}
    (hsettled : ∀ fuel, (s.run fuel tape).Settled ↔ (t.run fuel tape').Settled)
    (hR : ∀ fuel, (s.run fuel tape).Settled → R (s.run fuel tape) (t.run fuel tape')) :
    ((∃ v, s.EndsIn tape v) ↔ ∃ w, t.EndsIn tape' w) ∧
      ∀ v w, s.EndsIn tape v → t.EndsIn tape' w → R v w := by
  refine ends_of_lockstep (fun _ => run_stable) (fun _ => run_stable) fun fuel => ?_
  by_cases hv : (s.run fuel tape).Settled
  · exact .inr ⟨hv, (hsettled fuel).1 hv, hR fuel hv⟩
  · exact .inl ⟨hv, fun hw => hv ((hsettled fuel).2 hw)⟩

/-! ## What is akin -/

/-- A sense in which two interpreters may be akin. -/
structure Kinship (L : Type) where
  /-- The operation of the second program for one of the first. -/
  op : Op → Op
  place : Option Location → Option Location → Prop
  /-- Counts of started instructions. -/
  count : Nat → Nat → Prop
  state : Interp L → Interp L → Prop

namespace Kinship

variable (K : Kinship L)

/-- Statements of one shape, at corresponding places, with corresponding operations. -/
inductive Nodes : List Node → List Node → Prop where
  | nil : Nodes [] []
  | op {o : Op} {l l' : Option Location} {as bs : List Node} (near : K.place l l')
      (rest : Nodes as bs) : Nodes (.op o l :: as) (.op (K.op o) l' :: bs)
  | loop {l l' : Location} {body body' as bs : List Node} (near : K.place (some l) (some l'))
      (inside : Nodes body body') (rest : Nodes as bs) :
      Nodes (.loop l body :: as) (.loop l' body' :: bs)
  | bare {l l' : Option Location} {as bs : List Node} (near : K.place l l')
      (rest : Nodes as bs) : Nodes (.bare l :: as) (.bare l' :: bs)

/-- The same fault at corresponding places, after corresponding counts. -/
structure Faults (f g : Fault) : Prop where
  kind : f.kind = g.kind
  message : f.message = g.message
  rule : f.rule = g.rule
  cause : f.cause = g.cause
  place : K.place f.location g.location
  step : Option.Rel K.count f.step g.step

/-- The same reason to stop. Nobody is there to ask for an exit, to interrupt or to quit, and the
sink does nothing worse than fail. -/
inductive Stops : Stop → Stop → Prop where
  | fault {f g : Fault} (faults : K.Faults f g) : Stops (.fault f) (.fault g)
  | failure (f : Failure) : Stops (.failure f) (.failure f)

/-- An operation came to the same. -/
inductive Results : Except (Halt L) (Interp L) → Except (Halt L) (Interp L) → Prop where
  | ok {s t : Interp L} (states : K.state s t) : Results (.ok s) (.ok t)
  | error {a b : Stop} {s t : Interp L} (stops : K.Stops a b) (states : K.state s t) :
      Results (.error ⟨a, s⟩) (.error ⟨b, t⟩)

/-- The same active loop. -/
structure Loops (l m : ActiveLoop) : Prop where
  body : K.Nodes l.body m.body
  rest : K.Nodes l.rest m.rest

/-- Execution has got equally far. -/
structure Configs (c d : Config L) : Prop where
  state : K.state c.state d.state
  rest : K.Nodes c.rest d.rest
  loops : List.Forall₂ K.Loops c.loops d.loops

/-- Execution has led to the same. -/
inductive Progresses : Progress L → Progress L → Prop where
  | running {c d : Config L} (configs : K.Configs c d) : Progresses (.running c) (.running d)
  | finished {s t : Interp L} (states : K.state s t) : Progresses (.finished s) (.finished t)
  | halted {a b : Stop} {s t : Interp L} (stops : K.Stops a b) (states : K.state s t) :
      Progresses (.halted ⟨a, s⟩) (.halted ⟨b, t⟩)

/-- A run has turned out the same, or has got equally far. -/
inductive Verdicts : Verdict L → Verdict L → Prop where
  | finished {s t : Interp L} (states : K.state s t) : Verdicts (.finished s) (.finished t)
  | stopped {f g : Fault} {s t : Interp L} (faults : K.Faults f g) (states : K.state s t) :
      Verdicts (.stopped ⟨.fault f, s⟩) (.stopped ⟨.fault g, t⟩)
  | unfinished {c d : Config L} (configs : K.Configs c d) :
      Verdicts (.unfinished c) (.unfinished d)

variable {K}

theorem Nodes.head {n n' : Node} {as bs : List Node} (h : K.Nodes (n :: as) (n' :: bs)) :
    K.Nodes [n] [n'] := by
  cases h with
  | op near => exact .op near .nil
  | loop near inside => exact .loop near inside .nil
  | bare near => exact .bare near .nil

theorem Nodes.append {as as' bs bs' : List Node} (h : K.Nodes as as') (h' : K.Nodes bs bs') :
    K.Nodes (as ++ bs) (as' ++ bs') := by
  induction h with
  | nil => exact h'
  | op near _ ih => exact .op near ih
  | loop near inside _ _ ih => exact .loop near inside ih
  | bare near _ ih => exact .bare near ih

/-- With operations and places as they are, the same statements correspond. -/
theorem Nodes.refl (hop : ∀ o, K.op o = o) (hplace : ∀ l, K.place l l) (as : List Node) :
    K.Nodes as as := by
  fun_induction Node.written as with
  | case1 => exact .nil
  | case2 o l rest ih =>
    have h : K.Nodes (.op o l :: rest) (.op (K.op o) l :: rest) := .op (hplace l) ih
    rwa [hop] at h
  | case3 l body rest ihBody ihRest => exact .loop (hplace _) ihBody ihRest
  | case4 l rest ih => exact .bare (hplace l) ih

/-- With operations as they are and places that correspond only to themselves, the same statements
correspond and no others. -/
theorem Nodes.eq {as bs : List Node} (h : K.Nodes as bs) (hop : ∀ o, K.op o = o)
    (hplace : ∀ l l', K.place l l' → l = l') : as = bs := by
  induction h with
  | nil => rfl
  | op near _ ih => rw [ih, hplace _ _ near, hop]
  | loop near _ _ ihBody ihRest => rw [ihBody, ihRest, Option.some.inj (hplace _ _ near)]
  | bare near _ ih => rw [ih, hplace _ _ near]

/-- Corresponding faults differ in their places and steps at most. -/
theorem Faults.eq_with {f g : Fault} (h : K.Faults f g) :
    g = { f with location := g.location, step := g.step } := by
  obtain ⟨kind, message, rule, location, step, cause⟩ := f
  obtain ⟨kind', message', rule', location', step', cause'⟩ := g
  obtain ⟨rfl, rfl, rfl, rfl, -, -⟩ := h
  rfl

/-- Where a count settles the corresponding one, the step of a fault settles the corresponding
step. -/
theorem Faults.step_eq {f g : Fault} {k : Nat → Nat} (h : K.Faults f g)
    (hcount : ∀ m n, K.count m n → n = k m) : g.step = f.step.map k := by
  have hstep := h.step
  generalize f.step = m at hstep ⊢
  generalize g.step = n at hstep ⊢
  cases hstep with
  | none => rfl
  | some h => exact congrArg some (hcount _ _ h)

theorem Verdicts.settled_iff {v w : Verdict L} (h : K.Verdicts v w) :
    v.Settled ↔ w.Settled := by
  cases h <;> exact Iff.rfl

theorem Progresses.state {q r : Progress L} (h : K.Progresses q r) :
    K.state q.state r.state := by
  cases h with
  | running configs => exact configs.state
  | finished states => exact states
  | halted _ states => exact states

theorem Verdicts.state {v w : Verdict L} (h : K.Verdicts v w) : K.state v.state w.state := by
  cases h with
  | finished states => exact states
  | stopped _ states => exact states
  | unfinished configs => exact configs.state

variable (K) in
/-- What happens to the first interpreter happens to the second, where the tape of the first and the
statements ahead of it fit. -/
structure Kept (fits : Option Tape → List Node → Prop) : Prop where
  hooks : ∀ {s t}, K.state s t → s.hooks = #[] ∧ t.hooks = #[]
  steps : ∀ {s t}, K.state s t → K.count s.steps t.steps
  position : ∀ {s t}, K.state s t → K.place s.position t.position
  start : ∀ {s t n n'}, K.state s t → K.Nodes [n] [n'] → K.state (s.start n) (t.start n')
  push : ∀ {s t l l'}, K.state s t → K.place (some l) (some l') →
    K.state (s.push (Frame.ofLoop l)) (t.push (Frame.ofLoop l'))
  pop : ∀ {s t}, K.state s t → K.state s.pop t.pop
  cell : ∀ {s t rest}, fits s.tape rest → K.state s t → s.cell = t.cell
  operate : ∀ {s t o l l' rest}, fits s.tape (.op o l :: rest) → K.state s t → K.place l l' →
    K.Results (s.operate o l) (t.operate (K.op o) l')

namespace Kept

variable [Listener L] {fits : Option Tape → List Node → Prop}

/-- A step keeps two executions akin. -/
theorem step (hK : K.Kept fits) {c d : Config L} (h : K.Configs c d)
    (hfits : fits c.state.tape c.rest) : K.Progresses c.step d.step := by
  obtain ⟨s, rest, traced, loops⟩ := c
  obtain ⟨t, rest', traced', loops'⟩ := d
  obtain ⟨hstate, hrest, hloops⟩ := h
  simp only at hstate hrest hloops hfits
  obtain ⟨hs, ht⟩ := hK.hooks hstate
  have hcell := hK.cell hfits hstate
  have hstart {n n' : Node} {as bs : List Node} (h : K.Nodes (n :: as) (n' :: bs)) :
      K.state (s.start n) (t.start n') := hK.start hstate h.head
  cases hrest with
  | nil =>
    cases hloops with
    | nil => exact .finished hstate
    | @cons l m outer outer' hl ho =>
      by_cases hz : s.cell = 0
      · rw [Config.step_leave hs hz, Config.step_leave ht (hcell ▸ hz)]
        exact .running ⟨hK.pop hstate, hl.rest, ho⟩
      · rw [Config.step_turn hs hz, Config.step_turn ht (hcell ▸ hz)]
        exact .running ⟨hstate, hl.body, .cons hl ho⟩
  | @op o l l' as bs near hrest =>
    have hresult := hK.operate (s := s.start (.op o l)) hfits (hstart (.op near hrest)) near
    rw [Config.step_op hs, Config.step_op ht]
    generalize (s.start (.op o l)).operate o l = r at hresult ⊢
    generalize (t.start (.op (K.op o) l')).operate (K.op o) l' = r' at hresult ⊢
    cases hresult with
    | ok states => exact .running ⟨states, hrest, hloops⟩
    | error stops states => exact .halted stops states
  | @loop l l' body body' as bs near inside hrest =>
    have hstarted := hstart (.loop near inside hrest)
    by_cases hz : s.cell = 0
    · rw [Config.step_skip hs hz, Config.step_skip ht (hcell ▸ hz)]
      exact .running ⟨hstarted, hrest, hloops⟩
    · by_cases hd : Config.maxActive ≤ loops.length
      · rw [Config.step_deep hs hz hd,
          Config.step_deep ht (hcell ▸ hz) (hloops.length_eq ▸ hd)]
        exact .halted (.failure _) hstarted
      · rw [Config.step_enter hs hz hd,
          Config.step_enter ht (hcell ▸ hz) (hloops.length_eq ▸ hd)]
        exact .running ⟨hK.push hstarted near, inside, .cons ⟨inside, hrest⟩ hloops⟩
  | @bare l l' as bs near hrest =>
    rw [Config.step_bare hs, Config.step_bare ht]
    exact .halted (.fault ⟨rfl, rfl, rfl, rfl, near, .none⟩) (hstart (.bare near hrest))

/-- Execution for any number of steps keeps two executions akin. -/
theorem advance (hK : K.Kept fits) {c d : Config L} (h : K.Configs c d) (n : Nat)
    (hfits : ∀ m < n, ∀ e, c.advance m = .running e → fits e.state.tape e.rest) :
    K.Progresses (c.advance n) (d.advance n) := by
  induction n generalizing c d with
  | zero => exact .running h
  | succ n ih =>
    have hstep := hK.step h (hfits 0 (Nat.succ_pos n) c rfl)
    have hlater : ∀ e, c.step = .running e → ∀ m < n, ∀ e', e.advance m = .running e' →
        fits e'.state.tape e'.rest := by
      intro e he m hm e' he'
      refine hfits (m + 1) (Nat.succ_lt_succ hm) e' ?_
      rw [Config.advance, he]
      exact he'
    rw [Config.advance, Config.advance]
    generalize c.step = q at hstep hlater ⊢
    generalize d.step = r at hstep ⊢
    cases hstep with
    | running h => exact ih h (hlater _ rfl)
    | finished h => exact .finished h
    | halted stops h => exact .halted stops h

/-- What a run makes of akin progress is akin. -/
theorem verdict (hK : K.Kept fits) {q r : Progress L} (h : K.Progresses q r) :
    K.Verdicts q.verdict r.verdict := by
  -- a fault is noted with the count, which corresponds
  have hraise {s t : Interp L} {f g : Fault} (hstate : K.state s t) (hf : K.Faults f g) :
      K.Verdicts (.stopped (s.raise f)) (.stopped (t.raise g)) := by
    obtain ⟨hs, ht⟩ := hK.hooks hstate
    rw [Interp.raise_of_announce (Interp.announce_of_no_hooks hs _),
      Interp.raise_of_announce (Interp.announce_of_no_hooks ht _)]
    exact .stopped ⟨hf.kind, hf.message, hf.rule, hf.cause, hf.place, .some (hK.steps hstate)⟩
      hstate
  cases h with
  | running h => exact .unfinished h
  | finished hstate =>
    obtain ⟨hs, ht⟩ := hK.hooks hstate
    rw [Progress.verdict, Progress.verdict, Interp.conclude_of_no_hooks hs,
      Interp.conclude_of_no_hooks ht]
    exact .finished (hK.pop hstate)
  | halted stops hstate =>
    cases stops with
    | fault hf => exact hraise hstate hf
    | failure f => exact hraise hstate ⟨rfl, rfl, rfl, rfl, hK.position hstate, .none⟩

/-- Akin interpreters execute corresponding programs alike, as long as what the first one comes to
fits. -/
theorem runProgram (hK : K.Kept fits) {s t : Interp L} {p q : Program} {tape tape' : Tape}
    (hload : K.state (s.load p tape) (t.load q tape'))
    (hnodes : K.Nodes p.statements q.statements) (fuel : Nat)
    (hfits : ∀ m c, s.runProgram m p tape = .unfinished c → fits c.state.tape c.rest) :
    K.Verdicts (s.runProgram fuel p tape) (t.runProgram fuel q tape') := by
  obtain ⟨hs, ht⟩ := hK.hooks hload
  have hbegin := Interp.begin_untraced (s := s) hs p tape
  rw [Interp.runProgram_of_begin hbegin,
    Interp.runProgram_of_begin (Interp.begin_untraced (s := t) ht q tape')]
  refine hK.verdict (hK.advance ⟨hload, hnodes, .nil⟩ fuel fun m _ e he => ?_)
  refine hfits m e ?_
  rw [Interp.runProgram_of_begin hbegin, he]
  rfl

end Kept

end Kinship

end TapeLang
