import TapeLang.Proofs.Protocol
import TapeLang.Proofs.Single

/-!
# Stopping a run at a statement

A listener that hears of every start of a statement can stop the run at any of them. Up to there the
run takes the steps that it takes without listeners: the two differ in who listens and in which
passes are traced, and in nothing else. The run stops where the other one starts the statement in
question, with everything before it done and nothing of it.
-/

namespace TapeLang

variable {L : Type}

/-! ## A listener of every start -/

/-- What such a trigger hears of the start of a statement. -/
def Trigger.notice (tr : Trigger) (n : Node) (steps : Nat) : Notice :=
  match tr with
  | .on _ => .before n
  | .every _ _ => .tick steps

/-- The action that stops a run in this way. -/
def Stop.action : Stop → Action L
  | .fault f => .fault f
  | .failure f => .fail f
  | .exit code => .exit code
  | .interrupt text => .interrupt text
  | .quit kind text => .quit kind text

/-- How a run passes on the way in which a listener of a notice stops it: a failure becomes a fault
of rule `EXT`, and faults note the count of instructions. -/
def Stop.surfaced (n : Notice) (steps : Nat) (place : Option Location) : Stop → Stop
  | .failure g => .fault {
      message := s!"{n.subject} failed: {g.text}", rule := some "EXT", location := place,
      step := some steps, cause := some g }
  | .fault f => .fault { f with step := some steps }
  | stop => stop

/-- Stopping the run is carried out at once. -/
theorem Interp.perform_action (s : Interp L) (stop : Stop) :
    s.perform stop.action = .error ⟨stop, s⟩ := by
  cases stop <;> rfl

/-- The single listener has heard of every statement that was announced, and the passes are
traced. -/
structure Moment.Counted (tr : Trigger) (l : L) (base : Nat) (s : Interp L) (m : Moment) :
    Prop where
  hooks : ∃ calls, s.hooks = #[⟨tr, l, calls⟩] ∧ base + calls + m.due tr = s.steps
  passes : ∀ traced ∈ m.passes, traced = true

/-- The count is kept by what execution does by itself. -/
theorem Moment.Counted.go {tr : Trigger} {l : L} {base : Nat} {s s' : Interp L} {m m' : Moment}
    (htr : tr.AtStarts) (h : m.Counted tr l base s) (move : Goes s m s' m') :
    m'.Counted tr l base s' := by
  obtain ⟨⟨calls, hhooks, hcount⟩, hpasses⟩ := h
  have hidle : s.hooks.idle = false := by rw [hhooks, Hooks.idle_single htr.perInstruction]
  refine ⟨⟨calls, move.hooks_journal.1.trans hhooks, ?_⟩, move.traced hidle hpasses⟩
  rw [move.due_eq tr hpasses, move.steps_eq]
  omega

/-! ## A listener that stops the run -/

variable [Listener L]

/-- The listener takes no action before its `k`-th call, and stops the run at that call, in a way
that may depend on what it is told and on what it sees. -/
structure CutsAt (l : L) (k : Nat) (how : Notice → Scene → Stop) : Prop where
  quiet : ∀ j < k, ∀ n c, Listener.react l j n c = []
  stops : ∀ n c, ∃ rest, Listener.react l k n c = (how n c).action :: rest

section Counting

variable {tr : Trigger} {l : L} {base k : Nat} {how : Notice → Scene → Stop}

namespace Moment

variable {s s' : Interp L} {m m' : Moment} {n : Notice} {journal : Array (Call L)}

/-- Before the `k`-th statement no announcement is stopped. -/
theorem Counted.announce (htr : tr.AtStarts) (hl : CutsAt l k how) (h : m.Counted tr l base s)
    (hk : s.steps < base + k) (move : Announces s m n m') (journal : Array (Call L)) :
    ∃ t, s.announce n = .ok t ∧ t.hush journal = s.hush journal ∧ m'.Counted tr l base t := by
  obtain ⟨⟨calls, hhooks, hcount⟩, hpasses⟩ := h
  have hdue := move.due_eq htr
  have hquiet (hn : tr.hears n.signal = true) (c : Scene) :
      Listener.react l (calls + 1) n c = [] := by
    rw [if_pos hn] at hdue
    exact hl.quiet (calls + 1) (by omega) n c
  obtain ⟨t, ht, hhush, hcalls⟩ := Interp.announce_of_quiet hhooks hquiet journal
  refine ⟨t, ht, hhush, ⟨_, hcalls, ?_⟩, move.passes_eq ▸ hpasses⟩
  rw [(Interp.heard_of_announce_ok ht).steps]
  omega

end Moment

/-- Before the `k`-th statement the listener changes nothing. -/
theorem passive_of_cutsAt (htr : tr.AtStarts) (hl : CutsAt l k how) (journal : Array (Call L)) :
    Passive journal (base + k) fun s m => m.Counted tr l base s where
  announce h hs move := h.announce htr hl hs move journal
  go h move := h.go htr move
  stop h := ⟨h.hooks, h.passes⟩

/-! ## The statement at which the run stops -/

namespace Interp

variable {s t : Interp L} {calls : Nat} {n : Notice} {p : Program} {tape : Tape}

/-- The `k`-th call of the listener stops the announcement. -/
theorem announce_of_cut (hs : s.hooks = #[⟨tr, l, calls⟩]) (hn : tr.hears n.signal = true)
    (hl : CutsAt l (calls + 1) how) :
    s.announce n = .error (passOn n ⟨how n s.scene, s.noteCall 0 l n⟩) := by
  obtain ⟨rest, hrest⟩ := hl.stops n s.scene
  have hcall : s.callListener 0 ⟨tr, l, calls⟩ n =
      .error ⟨how n s.scene, s.noteCall 0 l n⟩ := by
    rw [callListener, hrest, performAll, perform_action]
  rw [announce_eq, round_of_hears hs hn hcall (fun t ht => by cases ht)]

/-- The start of the statement after those that the listener has heard of stops execution. -/
theorem announceBefore_of_cut (htr : tr.AtStarts) (hs : s.hooks = #[⟨tr, l, calls⟩])
    (hl : CutsAt l (calls + 1) how) (n : Node) (journal : Array (Call L)) :
    ∃ t, s.announceBefore true n = .error (passOn (tr.notice n s.steps)
        ⟨how (tr.notice n s.steps) s.scene, t⟩) ∧
      t.hush journal = s.hush journal ∧ t.hooks = #[⟨tr, l, calls + 1⟩] := by
  have hcounted (n : Notice) : (s.noteCall 0 l n).hooks = #[⟨tr, l, calls + 1⟩] := by
    simp [noteCall, Hooks.count, hs]
  rcases htr with rfl | ⟨pos, rfl⟩
  · refine ⟨s.noteCall 0 l (.before n), ?_, rfl, hcounted _⟩
    rw [announceBefore, if_pos rfl, announce_of_cut hs rfl hl]
    rfl
  · refine ⟨s.noteCall 0 l (.tick s.steps), ?_, rfl, hcounted _⟩
    -- the announcement of the statement goes unheard, and the tick comes next
    have hbefore : s.announce (.before n) = .ok s := by
      exact announce_of_deaf hs rfl
    have hhears : (Trigger.every 1 pos).hears (Notice.tick s.steps).signal = true := by
      simp [Trigger.hears, Notice.signal]
    rw [announceBefore, if_pos rfl, hbefore]
    exact announce_of_cut hs hhears hl

end Interp

/-- The step that starts the `k`-th statement is stopped by the listener. -/
theorem Config.step_cut (htr : tr.AtStarts) (hl : CutsAt l k how) {c : Config L} {n : Node}
    {rest : List Node} (h : c.moment.Counted tr l base c.state) (hrest : c.rest = n :: rest)
    (hk : c.state.steps + 1 = base + k) (journal : Array (Call L)) :
    ∃ t, c.step = .halted (Interp.passOn (tr.notice n (base + k))
        ⟨how (tr.notice n (base + k)) (c.state.start n).scene, t⟩) ∧
      t.hush journal = (c.state.start n).hush journal ∧ t.hooks = #[⟨tr, l, k⟩] := by
  obtain ⟨s, rest', traced, loops⟩ := c
  obtain rfl : rest' = n :: rest := hrest
  obtain ⟨⟨calls, hcalls, hcount⟩, hpasses⟩ := h
  obtain rfl : traced = true := hpasses traced List.mem_cons_self
  have hcount : base + calls + 0 = s.steps := hcount
  have hk : s.steps + 1 = base + k := hk
  obtain rfl : k = calls + 1 := by omega
  have hhooks : (s.start n).hooks = #[⟨tr, l, calls⟩] := hcalls
  obtain ⟨t, ht, hsame, hkept⟩ := Interp.announceBefore_of_cut htr hhooks hl n journal
  have hsteps : (s.start n).steps = base + (calls + 1) := hk
  rw [hsteps] at ht
  refine ⟨t, ?_, hsame, hkept⟩
  rw [step, ht]

namespace Interp

variable {s t : Interp L} {calls : Nat} {n : Notice} {p : Program} {tape : Tape}

/-- The way in which the listener stops the run surfaces, and the report changes nothing. -/
theorem report_passOn (htr : tr.AtStarts) (ht : t.hooks = #[⟨tr, l, calls⟩]) (n : Notice)
    (stop : Stop) :
    report (passOn n ⟨stop, t⟩) = ⟨stop.surfaced n t.steps t.position, t⟩ := by
  have hraise := raise_single htr.perInstruction ht
  cases stop with
  | fault f => exact hraise f
  | failure g => exact hraise (t.blame n g)
  | exit | interrupt | quit => rfl

/-- In a run of the program, this configuration is where its `k`-th statement is started. -/
structure Starts (s : Interp L) (p : Program) (tape : Tape) (k : Nat) (d : Config L) (n : Node) :
    Prop where
  reached : ∃ c m, s.begin p tape = .ok c ∧ c.advance m = .running d
  next : ∃ rest, d.rest = n :: rest
  count : d.state.steps + 1 = s.steps + k

/-- Execution with the listener comes to the `k`-th statement as it does without. -/
theorem Starts.exists_hush (htr : tr.AtStarts) (hl : CutsAt l k how)
    (hs : s.hooks = #[⟨tr, l, 0⟩]) {d : Config L} {n : Node}
    (hd : (s.hush s.journal).Starts p tape k d n) :
    ∃ c m c', s.begin p tape = .ok c ∧ c.advance m = .running c' ∧ c'.hush s.journal = d ∧
      c'.moment.Counted tr l s.steps c'.state := by
  obtain ⟨e, m, hbegin, hadvance⟩ := hd.reached
  obtain rfl := Except.ok.inj ((begin_hush s s.journal p tape true).symm.trans hbegin)
  have hcounted : Moment.Counted tr l s.steps (s.load p tape) (.next p.statements true []) :=
    ⟨⟨0, hs, rfl⟩, List.forall_mem_singleton.2 rfl⟩
  have hcount : d.state.steps + 1 = s.steps + k := hd.count
  obtain ⟨heq, hkeeps⟩ := (passive_of_cutsAt htr hl s.journal).advance
    (c := ⟨s.load p tape, p.statements, true, []⟩) hcounted (m := m)
    (by rw [hadvance]; simp only [Progress.state]; omega)
  obtain ⟨c', hc', hhush⟩ := Progress.hush_eq_running (heq.trans hadvance)
  rw [hc'] at hkeeps
  exact ⟨_, m, c', begin_single htr.perInstruction hs p tape, hc', hhush, hkeeps⟩

/-- Where the `k`-th statement is started, the listener stops the run. -/
theorem Starts.exists_endsIn (htr : tr.AtStarts) (hl : CutsAt l k how)
    (hs : s.hooks = #[⟨tr, l, 0⟩]) (hp : s.parse = .ok p) {d : Config L} {n : Node}
    (hd : (s.hush s.journal).Starts p tape k d n) :
    ∃ t, t.Alike (d.state.start n) ∧ s.EndsIn tape (.stopped
      ⟨(how (tr.notice n (s.steps + k)) (d.state.start n).scene).surfaced
        (tr.notice n (s.steps + k)) (s.steps + k) n.location, t⟩) := by
  obtain ⟨c, m, c', hc, hc', rfl, hcounted⟩ := hd.exists_hush htr hl hs
  obtain ⟨rest, hrest⟩ := hd.next
  obtain ⟨t, hstep, hsame, hhooks⟩ := Config.step_cut htr hl hcounted hrest hd.count s.journal
  have halike : t.Alike ((c'.hush s.journal).state.start n) := alike_of_hush_eq hsame
  have hsteps : t.steps = s.steps + k := halike.steps.trans hd.count
  have hplace : t.position = n.location := by
    obtain ⟨log, path⟩ := c.exists_arrives m
    rw [hc'] at path
    obtain ⟨current, pass, ⟨hstack, -, -, -⟩, -⟩ := (path.framed (begin_framed hc)).2
    exact position_of_callStack (halike.stack.trans (start_stack hstack n))
  have hreport := report_passOn htr hhooks (tr.notice n (s.steps + k))
    (how (tr.notice n (s.steps + k)) (c'.state.start n).scene)
  rw [hsteps, hplace] at hreport
  refine ⟨t, halike, trivial, m + 1, ?_⟩
  rw [run, hp]
  simp only [runProgram, hc, Config.advance_succ hc', hstep, hreport]
  rfl

end Interp

end Counting

/-! ## The number of statements started -/

namespace Config

variable {c : Config L} {log : List (Announcement L)} {s : Interp L} {m : Moment}

/-- The count of statements goes up one by one. -/
theorem Leads.exists_start (path : c.Leads log s m) {count : Nat} (hc : c.state.steps < count)
    (hs : count ≤ s.steps) :
    ∃ log' t n rest traced loops, c.Leads log' t (.next (n :: rest) traced loops) ∧
      t.steps + 1 = count := by
  induction path with
  | refl => omega
  | announce path move ok ih =>
    rw [(Interp.heard_of_announce_ok ok).steps] at hs
    exact ih hs
  | @go log s s' m m' path move ih =>
    by_cases hbefore : count ≤ s.steps
    · exact ih hbefore
    · have hsteps := move.steps_eq
      rcases m.starting_cases with hzero | ⟨hone, n, rest, traced, loops, rfl⟩
      · omega
      · exact ⟨log, s, n, rest, traced, loops, path, by omega⟩

end Config

namespace Interp

variable {s : Interp L} {p : Program} {tape : Tape} {v : Verdict L} {log : List (Announcement L)}

/-- A run has started the statements that its execution has started. -/
theorem Tells.steps_eq (ht : s.Tells p tape log v) :
    v.state.steps = s.steps ∨ ∃ c log' t m, s.begin p tape = .ok c ∧ c.Leads log' t m ∧
      v.state.steps = t.steps := by
  have hhalts {c : Config L} {log : List (Announcement L)} {m : Moment} {h : Halt L}
      (path : c.Halts log m h) : ∃ log' t m', c.Leads log' t m' ∧ h.state.steps = t.steps := by
    cases path with
    | @stopped log t m h path move =>
      obtain ⟨sink, -, hstate⟩ := move.exists_state_eq
      exact ⟨log, t, m, path, by rw [hstate]⟩
    | @refused log t m m' n h path move error =>
      exact ⟨log, t, m, path, (heard_of_announce_error error).steps⟩
  cases ht with
  | unstarted start => exact .inl (heard_of_announce_error (begin_eq_error start)).steps
  | unfinished start path => exact .inr ⟨_, _, _, _, start, path, rfl⟩
  | @concluded c log t traced start path =>
    refine .inr ⟨c, log, t, _, start, path, ?_⟩
    obtain ⟨u, hu, hv | ⟨stop, hv⟩⟩ := t.exists_conclude
    · rw [hv]
      exact hu.steps
    · rw [hv]
      exact hu.steps
  | passed start path signal =>
    obtain ⟨log', t, m', path', hsteps⟩ := hhalts path
    exact .inr ⟨_, log', t, m', start, path', hsteps⟩
  | reported start path fault =>
    obtain ⟨log', t, m', path', hsteps⟩ := hhalts path
    exact .inr ⟨_, log', t, m', start, path', (report_heard fault).steps.trans hsteps⟩

/-- A run that has started `k` statements has come to the start of the `k`-th. -/
theorem exists_starts (hp : s.parse = .ok p) {k : Nat} (hk : 1 ≤ k)
    (hsteps : ∃ fuel, s.steps + k ≤ (s.run fuel tape).state.steps) :
    ∃ d n, s.Starts p tape k d n := by
  obtain ⟨fuel, hfuel⟩ := hsteps
  obtain ⟨log, ht⟩ := exists_tells hp tape fuel
  rcases ht.steps_eq with hnone | ⟨c, log', t, m, start, path, hsome⟩
  · omega
  · have hbegin : c.state.steps = s.steps := (heard_of_announce_ok (begin_eq_ok start).1).steps
    obtain ⟨log'', u, n, rest, traced, loops, path', hcount⟩ :=
      path.exists_start (by omega : c.state.steps < s.steps + k) (by omega)
    obtain ⟨j, hj⟩ := path'.exists_advance
    exact ⟨_, n, ⟨c, j, start, hj⟩, ⟨rest, rfl⟩, hcount⟩

/-- A listener that hears of every start of a statement and stops the run at its `k`-th call stops
it where the run without listeners starts its `k`-th statement: with that run's call stack, tape and
output, and with the statement counted and not executed. -/
theorem run_cut (s : Interp L) (tape : Tape) {p : Program} (hp : s.parse = .ok p) {tr : Trigger}
    {l : L} {k : Nat} {how : Notice → Scene → Stop} (hs : s.hooks = #[⟨tr, l, 0⟩])
    (htr : tr.AtStarts) (hl : CutsAt l k how) (hk : 1 ≤ k)
    (hsteps : ∃ fuel, s.steps + k ≤
      (({ s with hooks := #[] } : Interp L).run fuel tape).state.steps) :
    let quiet : Interp L := { s with hooks := #[] }
    (∃ d n, quiet.Starts p tape k d n) ∧ ∀ d n, quiet.Starts p tape k d n →
      ∃ t, t.Alike (d.state.start n) ∧ t.steps = s.steps + k ∧ s.EndsIn tape (.stopped
        ⟨(how (tr.notice n (s.steps + k)) (d.state.start n).scene).surfaced
          (tr.notice n (s.steps + k)) (s.steps + k) n.location, t⟩) := by
  intro quiet
  have hquiet : quiet.parse = .ok p := hp
  refine ⟨exists_starts hquiet hk hsteps, ?_⟩
  intro d n hd
  obtain ⟨t, halike, hends⟩ := Starts.exists_endsIn htr hl hs hp hd
  exact ⟨t, halike, halike.steps.trans hd.count, hends⟩

open Evaluation in
/-- The program `+[+-]` goes on for ever. A listener of every tick that fails at its fifth call
stops it in the second pass, at the `+` of the loop. -/
theorem run_cut_in_second_pass :
    let l : Script := .mk "a" (some 5) [.fail (.named "ValueError" "boom")]
    let s : Interp Script :=
      { source := "+[+-]", file := "a", hooks := #[⟨.every 1 Nat.one_pos, l, 0⟩] }
    let quiet : Interp Script := { s with hooks := #[] }
    let tape : Tape := ⟨2, Vector.replicate 2 0, 1⟩
    CutsAt l 5 (fun _ _ => .failure (.named "ValueError" "boom")) ∧
      (quiet.run 6 tape).state.steps = 5 ∧ ∃ p d n f t, s.parse = .ok p ∧
      quiet.Starts p tape 5 d n ∧ t.Alike (d.state.start n) ∧
      s.EndsIn tape (.stopped ⟨.fault f, t⟩) ∧ t.steps = 5 ∧ t.stack.length = 2 ∧
      f.rule = some "EXT" ∧ f.step = some 5 ∧ f.location = n.location ∧
      f.location = some ⟨"a", 1, 3, "+[+-]"⟩ := by
  intro l s quiet tape
  have htokens : Source.ofText "+[+-]" "a" =
      ⟨#[⟨.op .increment, 1, 1⟩, ⟨.opening, 1, 2⟩, ⟨.op .increment, 1, 3⟩, ⟨.op .decrement, 1, 4⟩,
        ⟨.closing, 1, 5⟩, ⟨.finish, 1, 6⟩], "a", #["+[+-]"]⟩ := rfl
  let body : List Node :=
    [.op .increment (some ⟨"a", 1, 3, "+[+-]"⟩), .op .decrement (some ⟨"a", 1, 4, "+[+-]"⟩)]
  let p : Program :=
    ⟨[.op .increment (some ⟨"a", 1, 1, "+[+-]"⟩), .loop ⟨"a", 1, 2, "+[+-]"⟩ body],
      ⟨"a", 1, 6, "+[+-]"⟩⟩
  have hp : s.parse = .ok p := by
    rw [Interp.parse, Program.parse, htokens]
    exact Program.ofSource_eq_ok_iff.2 ⟨by decide,
      .op rfl (.loop rfl (.op rfl (.op rfl (.nil _ _))) rfl (.nil _ _)),
      by simp [p, body, Node.depth, Program.maxNesting], rfl⟩
  have hl : CutsAt l 5 fun _ _ => .failure (.named "ValueError" "boom") := by
    refine ⟨?_, fun _ _ => ⟨[], rfl⟩⟩
    intro j hj _ _
    exact if_neg (by omega)
  have hquiet : quiet.run 6 tape = quiet.runProgram 6 p tape := by
    rw [run, show quiet.parse = .ok p from hp]
  have hsteps : (quiet.run 6 tape).state.steps = 5 := by
    rw [hquiet]
    simp [quiet, s, tape, p, body, Verdict.state]
  obtain ⟨⟨d, n, hd⟩, hcut⟩ :=
    run_cut s tape hp rfl (.inr ⟨_, rfl⟩) hl (by decide) ⟨6, Nat.le_of_eq hsteps.symm⟩
  obtain ⟨t, halike, hcount, hends⟩ := hcut d n hd
  have hrun : s.run 6 tape = s.runProgram 6 p tape := by rw [run, hp]
  have hstop : (s.run 6 tape).stop? = some (.fault {
      message := "Extension step rule failed: boom", rule := some "EXT",
      location := some ⟨"a", 1, 3, "+[+-]"⟩, step := some 5,
      cause := some (.named "ValueError" "boom") }) := by
    rw [hrun]
    simp [s, l, tape, p, body, Verdict.stop?]
    decide
  have hstack : (s.run 6 tape).state.stack.length = 2 := by
    rw [hrun]
    simp [s, l, tape, p, body, Verdict.state]
  have hsame := Verdict.stopped.inj (hends.unique (endsIn_of_stop? hstop))
  have hplace : n.location = some ⟨"a", 1, 3, "+[+-]"⟩ :=
    congrArg Fault.location (Stop.fault.inj (congrArg Halt.stop hsame))
  have hstate : t = (s.run 6 tape).state := congrArg Halt.state hsame
  exact ⟨hl, hsteps, p, d, n, _, t, hp, hd, halike, hends, hcount, hstate ▸ hstack,
    rfl, rfl, rfl, hplace⟩

end Interp

end TapeLang
