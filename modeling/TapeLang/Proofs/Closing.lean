import TapeLang.Proofs.CallStack
import TapeLang.Proofs.Evaluation
import TapeLang.Proofs.Kinship
import TapeLang.Proofs.Reading
import TapeLang.Script

/-!
# Sinks that close

A sink may take a number of writes and fail from then on. With nobody to listen, a program that
writes no more than that runs as if the sink stayed open. Any other program, and be it one that goes
on for ever, is stopped where it writes one character too many: up to there nothing is different,
and the failure is reported as a fault at that statement.
-/

namespace TapeLang

variable {L : Type}

/-! ## Open and closing sinks -/

/-- The same interpreter with a sink that closes after so many writes, and then fails so. -/
def Interp.capped (cap : Nat × Failure) (s : Interp L) : Interp L :=
  { s with sink := { s.sink with refusal := (Sink.closing cap.1 (.failure cap.2)).refusal } }

/-- The same configuration with a sink that closes. -/
def Config.capped (cap : Nat × Failure) (c : Config L) : Config L :=
  { c with state := c.state.capped cap }

/-- The same halt with a sink that closes. -/
def Halt.capped (cap : Nat × Failure) (h : Halt L) : Halt L := ⟨h.stop, h.state.capped cap⟩

/-- The same progress with a sink that closes. -/
def Progress.capped (cap : Nat × Failure) : Progress L → Progress L
  | .running c => .running (c.capped cap)
  | .finished s => .finished (s.capped cap)
  | .halted h => .halted (h.capped cap)

theorem Progress.Settled.capped {r : Progress L} (h : r.Settled) (cap : Nat × Failure) :
    (r.capped cap).Settled := by
  cases r with
  | running c => exact h.elim
  | finished | halted => trivial

/-- The same verdict with a sink that closes. -/
def Verdict.capped (cap : Nat × Failure) : Verdict L → Verdict L
  | .unparsed e s => .unparsed e (s.capped cap)
  | .finished s => .finished (s.capped cap)
  | .stopped h => .stopped (h.capped cap)
  | .unfinished c => .unfinished (c.capped cap)

/-- The characters that have been written. -/
def Interp.written (s : Interp L) : List Char := s.sink.text.toList

/-- Nobody listens, and the sink takes all that is written, one character at a time. -/
structure Interp.WritesFreely (s : Interp L) : Prop where
  hooks : s.hooks = #[]
  takes : s.sink.Open
  calls : s.sink.calls = s.written.length

namespace Interp

variable {s : Interp L}

theorem alter_capped (s : Interp L) (cap : Nat × Failure) (f : Tape → Tape) :
    (s.capped cap).alter f = (s.alter f).capped cap := by
  rw [alter, alter]
  cases hb : s.bench with
  | none => simp only [capped, hb]
  | some tape => simp only [capped, hb]

theorem sink_alter (s : Interp L) (f : Tape → Tape) : (s.alter f).sink = s.sink := by
  rw [alter]
  split <;> rfl

/-- The state after a character has been written. -/
def wrote (s : Interp L) (a : Char) : Interp L :=
  { s with sink := s.sink.taken (String.singleton a) }

theorem emit_capped (s : Interp L) (cap : Nat × Failure) (a : Char) :
    (s.capped cap).emit (String.singleton a) =
      if s.sink.calls < cap.1 then .ok ((s.wrote a).capped cap)
      else .error ⟨.failure cap.2, ({ s with sink := s.sink.refused } : Interp L).capped cap⟩ := by
  have hrefusal : (s.capped cap).sink.refusal (s.capped cap).sink.calls =
      if s.sink.calls < cap.1 then none else some (.failure cap.2) := rfl
  rw [emit, hrefusal]
  by_cases hroom : s.sink.calls < cap.1
  · rw [if_pos hroom, if_pos hroom]
    rfl
  · rw [if_neg hroom, if_neg hroom]
    rfl

end Interp

/-! ## Single steps -/

namespace Config

variable [Listener L] {c : Config L} {cap : Nat × Failure}

/-- A `.` is next. -/
def Writing (c : Config L) : Prop := ∃ l rest, c.rest = .op .output l :: rest

/-- A step that writes nothing is the same with a sink that closes. -/
theorem step_of_not_writing (h : c.state.hooks = #[]) (hw : ¬c.Writing) :
    c.step.state.sink = c.state.sink ∧ ∀ cap, (c.capped cap).step = c.step.capped cap := by
  obtain ⟨s, rest, traced, loops⟩ := c
  have hs : s.hooks = #[] := h
  have hs' (cap : Nat × Failure) : (s.capped cap).hooks = #[] := h
  simp only [capped]
  cases rest with
  | nil =>
    cases loops with
    | nil => exact ⟨rfl, fun _ => rfl⟩
    | cons l outer =>
      by_cases hz : s.cell = 0
      · rw [step_leave hs hz]
        exact ⟨rfl, fun cap => step_leave (hs' cap) hz l⟩
      · rw [step_turn hs hz]
        exact ⟨rfl, fun cap => step_turn (hs' cap) hz l⟩
  | cons n rest =>
    cases n with
    | op o l =>
      have halter (f : Tape → Tape) (cap : Nat × Failure) :
          ((s.capped cap).start (.op o l)).alter f = ((s.start (.op o l)).alter f).capped cap :=
        Interp.alter_capped (s.start (.op o l)) cap f
      rw [step_op hs]
      cases o with
      | output => exact absurd ⟨l, rest, rfl⟩ hw
      | input => exact ⟨rfl, fun cap => step_op (hs' cap) _ l⟩
      | _ =>
        refine ⟨Interp.sink_alter (s.start (.op _ l)) _, fun cap => ?_⟩
        rw [step_op (hs' cap), Interp.operate, halter]
        rfl
    | bare l =>
      rw [step_bare hs]
      exact ⟨rfl, fun cap => step_bare (hs' cap) l⟩
    | loop l body =>
      by_cases hz : s.cell = 0
      · rw [step_skip hs hz]
        exact ⟨rfl, fun cap => step_skip (hs' cap) hz l body⟩
      · by_cases hd : maxActive ≤ loops.length
        · rw [step_deep hs hz hd]
          exact ⟨rfl, fun cap => step_deep (hs' cap) hz hd l body⟩
        · rw [step_enter hs hz hd]
          exact ⟨rfl, fun cap => step_enter (hs' cap) hz hd l body⟩

/-- A step that writes a character goes on behind it. With a sink that closes it does so while the
sink is open, and fails when it is not. -/
theorem step_of_writing (h : c.state.WritesFreely) {l : Option Location} {rest : List Node}
    (hw : c.rest = .op .output l :: rest) :
    (∃ a, c.step = .running ⟨(c.state.start (.op .output l)).wrote a, rest, c.traced, c.loops⟩) ∧
      ∀ cap, (c.capped cap).step = if c.state.written.length < cap.1 then c.step.capped cap
        else .halted ⟨.failure cap.2, ({ c.state.start (.op .output l) with
          sink := c.state.sink.refused } : Interp L).capped cap⟩ := by
  obtain ⟨s, rest', traced, loops⟩ := c
  obtain rfl : rest' = .op .output l :: rest := hw
  let t := s.start (.op .output l)
  have ht : t.sink.Open := h.takes
  let a := Char.ofNat t.cell.toNat
  have hstep : step ⟨s, .op .output l :: rest, traced, loops⟩ =
      .running ⟨t.wrote a, rest, traced, loops⟩ := by
    rw [step_op h.hooks, Interp.operate, Interp.emit_of_open ht]
    rfl
  refine ⟨⟨a, hstep⟩, fun cap => ?_⟩
  have hhooks : (s.capped cap).hooks = #[] := h.hooks
  have hemit := t.emit_capped cap a
  rw [show t.sink.calls = s.written.length from h.calls] at hemit
  rw [hstep, capped, step_op hhooks, Interp.operate]
  show Progress.ofResult ((t.capped cap).emit (String.singleton a)) _ = _
  rw [hemit]
  by_cases hroom : s.written.length < cap.1
  · rw [if_pos hroom, if_pos hroom]
    rfl
  · rw [if_neg hroom, if_neg hroom]
    rfl

/-- A step writes at most one character, and writes it for a `.`. -/
theorem step_free (h : c.state.WritesFreely) :
    c.step.state.WritesFreely ∧
      (¬c.Writing ∧ c.step.state.written = c.state.written ∨
        c.Writing ∧ ∃ a, c.step.state.written = c.state.written ++ [a]) := by
  have hhooks : c.step.state.hooks = #[] := by
    rw [← advance_succ (n := 0) (c := c) rfl]
    exact advance_of_no_hooks h.hooks 1
  by_cases hw : c.Writing
  · obtain ⟨l, rest, hrest⟩ := hw
    obtain ⟨⟨a, hstep⟩, -⟩ := step_of_writing h hrest
    have hwritten : c.step.state.written = c.state.written ++ [a] := by
      rw [hstep]
      exact (String.toList_append ..).trans (congrArg (_ ++ ·) (String.toList_singleton a))
    refine ⟨⟨hhooks, ?_, ?_⟩, .inr ⟨⟨l, rest, hrest⟩, a, hwritten⟩⟩
    · rw [hstep]
      exact h.takes
    · rw [hwritten, List.length_append, hstep]
      exact congrArg (· + 1) h.calls
  · obtain ⟨hsink, -⟩ := step_of_not_writing h.hooks hw
    have hwritten : c.step.state.written = c.state.written := by
      rw [Interp.written, hsink, Interp.written]
    refine ⟨⟨hhooks, ?_, ?_⟩, .inl ⟨hw, hwritten⟩⟩
    · rw [hsink]
      exact h.takes
    · rw [hsink, hwritten]
      exact h.calls

/-- A step that leaves no more written than the sink takes is the same with that sink. -/
theorem step_capped (h : c.state.WritesFreely) (room : c.step.state.written.length ≤ cap.1) :
    (c.capped cap).step = c.step.capped cap := by
  rcases (step_free h).2 with ⟨hw, -⟩ | ⟨⟨l, rest, hrest⟩, a, hmore⟩
  · exact (step_of_not_writing h.hooks hw).2 cap
  · rw [hmore, List.length_append] at room
    exact ((step_of_writing h hrest).2 cap).trans (if_pos room)

theorem advance_free (h : c.state.WritesFreely) (n : Nat) : (c.advance n).state.WritesFreely := by
  induction n with
  | zero => exact h
  | succ n ih =>
    rcases c.advance_succ_cases n with ⟨d, hd, hnext⟩ | ⟨-, hnext⟩
    · rw [hd] at ih
      rw [hnext]
      exact (step_free ih).1
    · rw [hnext]
      exact ih

/-- What has been written stays written. -/
theorem written_isPrefix (h : c.state.WritesFreely) (m k : Nat) :
    (c.advance m).state.written <+: (c.advance (m + k)).state.written := by
  induction k with
  | zero => exact List.prefix_rfl
  | succ k ih =>
    refine ih.trans ?_
    have hfree := advance_free h (m + k)
    rw [← Nat.add_assoc]
    rcases c.advance_succ_cases (m + k) with ⟨d, hd, hnext⟩ | ⟨-, hnext⟩
    · rw [hd] at hfree
      rw [hd, hnext]
      rcases (step_free hfree).2 with ⟨-, hsame⟩ | ⟨-, a, hmore⟩
      · exact hsame ▸ List.prefix_rfl
      · exact hmore ▸ List.prefix_append _ _
    · exact hnext ▸ List.prefix_rfl

/-- Until more has been written than the sink takes, execution is the same with that sink. -/
theorem advance_capped (h : c.state.WritesFreely) {n : Nat}
    (room : (c.advance n).state.written.length ≤ cap.1) :
    (c.capped cap).advance n = (c.advance n).capped cap := by
  induction n with
  | zero => rfl
  | succ n ih =>
    have hrest := ih ((written_isPrefix h n 1).length_le.trans room)
    have hfree := advance_free h n
    rcases c.advance_succ_cases n with ⟨d, hd, hnext⟩ | ⟨hover, hnext⟩
    · rw [hd] at hrest hfree
      rw [hnext] at room ⊢
      rw [advance_succ hrest]
      exact step_capped hfree room
    · rw [hnext, advance_stable (hrest ▸ hover.capped cap), hrest]

/-- Execution that has written more than `n` characters has come to a `.` with `n` characters
written. -/
theorem exists_writing (h : c.state.WritesFreely) {n m : Nat} (few : c.state.written.length ≤ n)
    (many : n < (c.advance m).state.written.length) :
    ∃ k d, c.advance k = .running d ∧ d.Writing ∧ d.state.written.length = n := by
  induction m with
  | zero => exact absurd many (Nat.not_lt.2 few)
  | succ m ih =>
    by_cases hbefore : n < (c.advance m).state.written.length
    · exact ih hbefore
    have hfree := advance_free h m
    rcases c.advance_succ_cases m with ⟨d, hd, hnext⟩ | ⟨-, hnext⟩
    · rw [hnext] at many
      rw [hd] at hbefore hfree
      refine ⟨m, d, hd, ?_⟩
      rcases (step_free hfree).2 with ⟨-, hsame⟩ | ⟨hw, a, hmore⟩
      · rw [hsame] at many
        exact absurd many hbefore
      · rw [hmore, List.length_append, List.length_singleton] at many
        exact ⟨hw, Nat.le_antisymm (Nat.not_lt.1 hbefore) (Nat.le_of_lt_succ many)⟩
    · rw [hnext] at many
      exact absurd many hbefore

end Config

/-! ## Runs -/

variable [Listener L]

/-- A run makes the same of its progress with a sink that closes, and writes nothing more. -/
theorem Progress.verdict_capped {r : Progress L} (h : r.state.hooks = #[]) :
    r.verdict.state.written = r.state.written ∧
      ∀ cap, (r.capped cap).verdict = r.verdict.capped cap := by
  cases r with
  | running c => exact ⟨rfl, fun _ => rfl⟩
  | finished s =>
    have hs : s.conclude = .finished s.pop := Interp.conclude_of_no_hooks h
    rw [verdict, hs]
    exact ⟨rfl, fun cap => Interp.conclude_of_no_hooks h⟩
  | halted halt =>
    obtain ⟨stop, s⟩ := halt
    have hraise (t : Interp L) (ht : t.hooks = #[]) (f : Fault) :
        t.raise f = ⟨.fault { f with step := some t.steps }, t⟩ :=
      Interp.raise_of_announce (Interp.announce_of_no_hooks ht _)
    cases stop with
    | fault f =>
      rw [verdict, Interp.report, hraise s h]
      exact ⟨rfl, fun cap => congrArg Verdict.stopped (hraise (s.capped cap) h f)⟩
    | failure g =>
      rw [verdict, Interp.report, hraise s h]
      exact ⟨rfl, fun cap => congrArg Verdict.stopped (hraise (s.capped cap) h (s.wrap g))⟩
    | exit | interrupt | quit => exact ⟨rfl, fun _ => rfl⟩

namespace Interp

variable {s : Interp L} {p : Program} {tape : Tape} {n : Nat} {d : Config L}
  {l : Option Location}

/-- In a run of the program, this configuration is where a `.` at a place is next and `n` characters
have been written. -/
structure Brims (s : Interp L) (p : Program) (tape : Tape) (n : Nat) (d : Config L)
    (l : Option Location) : Prop where
  reached : ∃ c m, s.begin p tape = .ok c ∧ c.advance m = .running d
  next : ∃ rest, d.rest = .op .output l :: rest
  written : d.state.written.length = n

/-- Where a run that nobody listens to begins. -/
def outset (s : Interp L) (p : Program) (tape : Tape) : Config L :=
  ⟨s.load p tape, p.statements, false, []⟩

omit [Listener L] in
theorem WritesFreely.outset (h : s.WritesFreely) (p : Program) (tape : Tape) :
    (s.outset p tape).state.WritesFreely :=
  ⟨h.hooks, h.takes, h.calls⟩

/-- A run is execution from there, with whatever sink. -/
theorem WritesFreely.run_eq (h : s.WritesFreely) (hp : s.parse = .ok p) (tape : Tape)
    (fuel : Nat) :
    s.run fuel tape = ((s.outset p tape).advance fuel).verdict ∧
      (s.run fuel tape).state.written = ((s.outset p tape).advance fuel).state.written ∧
      ∀ cap, (s.capped cap).run fuel tape =
        (((s.outset p tape).capped cap).advance fuel).verdict := by
  have hrun : s.run fuel tape = ((s.outset p tape).advance fuel).verdict :=
    run_of_begin hp (begin_untraced h.hooks p tape) fuel
  refine ⟨hrun, ?_, fun cap => ?_⟩
  · rw [hrun]
    exact (Progress.verdict_capped (Config.advance_of_no_hooks (h.outset p tape).hooks fuel)).1
  · have hparse : (s.capped cap).parse = .ok p := hp
    have hhooks : (s.capped cap).hooks = #[] := h.hooks
    exact run_of_begin hparse (begin_untraced hhooks p tape) fuel

/-- As long as no more has been written than the sink takes, a run is the same with that sink. -/
theorem WritesFreely.run_capped (h : s.WritesFreely) (hp : s.parse = .ok p) {cap : Nat × Failure}
    {fuel : Nat} (room : (s.run fuel tape).state.written.length ≤ cap.1) :
    (s.capped cap).run fuel tape = (s.run fuel tape).capped cap := by
  obtain ⟨hrun, hwritten, hcapped⟩ := h.run_eq hp tape fuel
  rw [hwritten] at room
  have hhooks := Config.advance_of_no_hooks (h.outset p tape).hooks fuel
  rw [hcapped, hrun, Config.advance_capped (h.outset p tape) room]
  exact (Progress.verdict_capped hhooks).2 cap

/-- A run that writes more than `n` characters comes to a `.` with `n` characters written. -/
theorem WritesFreely.exists_brims (h : s.WritesFreely) (hp : s.parse = .ok p)
    (few : s.written.length ≤ n) {fuel : Nat}
    (many : n < (s.run fuel tape).state.written.length) : ∃ d l, s.Brims p tape n d l := by
  rw [(h.run_eq hp tape fuel).2.1] at many
  obtain ⟨k, d, hk, ⟨l, rest, hrest⟩, hn⟩ := Config.exists_writing (h.outset p tape) few many
  exact ⟨d, l, ⟨_, k, begin_untraced h.hooks p tape, hk⟩, ⟨rest, hrest⟩, hn⟩

theorem Brims.exists_advance (hd : s.Brims p tape n d l) (h : s.hooks = #[]) :
    ∃ m, (s.outset p tape).advance m = .running d := by
  obtain ⟨c, m, hc, hm⟩ := hd.reached
  obtain rfl : s.outset p tape = c := Except.ok.inj ((begin_untraced h p tape).symm.trans hc)
  exact ⟨m, hm⟩

/-- What has been written when a run comes to that `.` is what stands in front of all that a longer
run writes. -/
theorem Brims.written_eq_take (hd : s.Brims p tape n d l) (h : s.WritesFreely)
    (hp : s.parse = .ok p) {fuel : Nat} (many : n < (s.run fuel tape).state.written.length) :
    d.state.written = (s.run fuel tape).state.written.take n := by
  obtain ⟨m, hm⟩ := hd.exists_advance h.hooks
  have hwritten : ((s.outset p tape).advance m).state.written = d.state.written := by
    rw [hm]
    rfl
  rw [(h.run_eq hp tape fuel).2.1] at many ⊢
  have hlater : m ≤ fuel := by
    by_contra hearlier
    obtain ⟨k, rfl⟩ := Nat.exists_eq_add_of_le (Nat.le_of_not_le hearlier)
    have hle := (Config.written_isPrefix (h.outset p tape) fuel k).length_le
    rw [hwritten, hd.written] at hle
    exact absurd many (Nat.not_lt.2 hle)
  obtain ⟨k, rfl⟩ := Nat.exists_eq_add_of_le hlater
  have hfront := Config.written_isPrefix (h.outset p tape) m k
  rw [hwritten, List.prefix_iff_eq_take, hd.written] at hfront
  exact hfront

/-- With a sink that takes no more, the run ends there with the failure of the sink. -/
theorem Brims.endsIn (hd : s.Brims p tape n d l) (h : s.WritesFreely) (hp : s.parse = .ok p)
    (g : Failure) :
    (∃ frame outer, (d.state.start (.op .output l)).stack = frame :: outer ∧
        frame.current = some (.op .output l)) ∧
      (s.capped (n, g)).EndsIn tape (.stopped
        ⟨.fault {
          message := s!"Internal interpreter error: {g.text}", rule := some "internal",
          location := l, step := some (d.state.steps + 1), cause := some g },
        ({ d.state.start (.op .output l) with
          sink := d.state.sink.refused } : Interp L).capped (n, g)⟩) := by
  obtain ⟨m, hm⟩ := hd.exists_advance h.hooks
  obtain ⟨rest, hrest⟩ := hd.next
  let t := d.state.start (.op .output l)
  have hfree : d.state.WritesFreely := by
    have hfree := Config.advance_free (h.outset p tape) m
    rwa [hm] at hfree
  -- the frames are those of the active loops, with the innermost one at the `.`
  obtain ⟨log, path⟩ := (s.outset p tape).exists_arrives m
  rw [hm] at path
  obtain ⟨current, pass, ⟨hstack, -, -, -⟩, -⟩ :=
    (path.framed (begin_framed (begin_untraced h.hooks p tape))).2
  have hstack : t.stack = callStack p.finish (some (.op .output l)) d.loops :=
    start_stack hstack (.op .output l)
  let u : Interp L := ({ t with sink := d.state.sink.refused } : Interp L).capped (n, g)
  have hposition : u.position = l := position_of_callStack hstack
  refine ⟨?_, trivial, m + 1, ?_⟩
  · rw [hstack]
    cases d.loops with
    | nil => exact ⟨_, _, rfl, rfl⟩
    | cons loop outer => exact ⟨_, _, rfl, rfl⟩
  · have hroom : d.state.written.length ≤ n := Nat.le_of_eq hd.written
    have hadvance : ((s.outset p tape).capped (n, g)).advance m = .running (d.capped (n, g)) := by
      rw [Config.advance_capped (h.outset p tape) (by rw [hm]; exact hroom), hm]
      rfl
    have hstep : (d.capped (n, g)).step = .halted ⟨.failure g, u⟩ := by
      rw [(Config.step_of_writing hfree hrest).2,
        if_neg (Nat.not_lt.2 (Nat.le_of_eq hd.written.symm))]
    have hhooks : u.hooks = #[] := hfree.hooks
    rw [(h.run_eq hp tape (m + 1)).2.2, Config.advance_succ hadvance, hstep, Progress.verdict,
      report, raise_of_announce (announce_of_no_hooks hhooks _), wrap, hposition]
    rfl

/-- A sink that takes `n` writes makes no difference to a program that writes no more. Any other
program ends at the `.` at which the run with an open sink has written `n` characters: with the
failure of the sink as a fault at that statement, with the state that the other run has there, and
with the first `n` characters of what that run writes. -/
theorem run_closing (s : Interp L) (tape : Tape) {p : Program} (hp : s.parse = .ok p)
    (hs : s.hooks = #[]) (n : Nat) (g : Failure) :
    let free : Interp L := { s with sink := {} }
    let limited : Interp L := { s with sink := .closing n (.failure g) }
    ((∀ fuel, (free.run fuel tape).state.written.length ≤ n) →
        ∀ fuel, limited.run fuel tape = (free.run fuel tape).capped (n, g)) ∧
      ((∃ fuel, n < (free.run fuel tape).state.written.length) →
        (∃ d l, free.Brims p tape n d l) ∧ ∀ d l, free.Brims p tape n d l →
          let t := (d.state.start (.op .output l)).capped (n, g)
          (∃ frame outer, t.stack = frame :: outer ∧ frame.current = some (.op .output l)) ∧
          (∀ fuel, n < (free.run fuel tape).state.written.length →
            t.written = (free.run fuel tape).state.written.take n) ∧
          limited.EndsIn tape (.stopped ⟨.fault {
            message := s!"Internal interpreter error: {g.text}", rule := some "internal",
            location := l, step := some t.steps, cause := some g },
            { t with sink := t.sink.refused }⟩)) := by
  intro free limited
  have hfree : free.WritesFreely := ⟨hs, Sink.open_default, rfl⟩
  have hparse : free.parse = .ok p := hp
  have hlimited : limited = free.capped (n, g) := rfl
  rw [hlimited]
  refine ⟨fun room fuel => hfree.run_capped hparse (room fuel), ?_⟩
  rintro ⟨fuel, many⟩
  refine ⟨hfree.exists_brims hparse (Nat.zero_le n) many, fun d l hd => ?_⟩
  obtain ⟨hframe, hends⟩ := hd.endsIn hfree hparse g
  exact ⟨hframe, fun fuel many => hd.written_eq_take hfree hparse many, hends⟩

open Evaluation in
/-- The program `+[.]` writes for ever. A sink that takes two writes stops it in the third pass. -/
theorem run_closing_in_third_pass :
    let s : Interp Script := { source := "+[.]", file := "a" }
    let g : Failure := .named "OSError" "disk full"
    let limited : Interp Script := { s with sink := .closing 2 (.failure g) }
    let tape : Tape := ⟨2, Vector.replicate 2 0, 1⟩
    s.hooks = #[] ∧ (s.run 8 tape).state.written = ['\x01', '\x01', '\x01'] ∧
      ∃ p d l f t, s.parse = .ok p ∧ s.Brims p tape 2 d l ∧
        d.state.steps = 4 ∧ limited.EndsIn tape (.stopped ⟨.fault f, t⟩) ∧
        f.message = "Internal interpreter error: disk full" ∧ f.rule = some "internal" ∧
        f.location = some ⟨"a", 1, 3, "+[.]"⟩ ∧ f.step = some 5 ∧ t.written = ['\x01', '\x01'] ∧
        t.steps = 5 ∧ t.stack.length = 2 := by
  intro s g limited tape
  have htokens : Source.ofText "+[.]" "a" =
      ⟨#[⟨.op .increment, 1, 1⟩, ⟨.opening, 1, 2⟩, ⟨.op .output, 1, 3⟩, ⟨.closing, 1, 4⟩,
        ⟨.finish, 1, 5⟩], "a", #["+[.]"]⟩ := rfl
  let body : List Node := [.op .output (some ⟨"a", 1, 3, "+[.]"⟩)]
  let p : Program :=
    ⟨[.op .increment (some ⟨"a", 1, 1, "+[.]"⟩), .loop ⟨"a", 1, 2, "+[.]"⟩ body],
      ⟨"a", 1, 5, "+[.]"⟩⟩
  have hp : s.parse = .ok p := by
    rw [Interp.parse, Program.parse, htokens]
    exact Program.ofSource_eq_ok_iff.2 ⟨by decide,
      .op rfl (.loop rfl (.op rfl (.nil _ _)) rfl (.nil _ _)),
      by simp [p, body, Node.depth, Program.maxNesting], rfl⟩
  have hwritten : (s.run 8 tape).state.written = ['\x01', '\x01', '\x01'] := by
    rw [run, hp]
    simp [s, tape, p, body, Verdict.state, written]
  have hlimited : limited.run 8 tape = limited.runProgram 8 p tape := by
    rw [run, show limited.parse = .ok p from hp]
  have hmany : 2 < (s.run 8 tape).state.written.length := by rw [hwritten]; decide
  obtain ⟨⟨d, l, hd⟩, hends⟩ := (run_closing s tape hp rfl 2 g).2 ⟨8, hmany⟩
  obtain ⟨-, htake, hends⟩ := hends d l hd
  have hfront := htake 8 hmany
  rw [hwritten] at hfront
  have hstop : (limited.run 8 tape).stop? = some (.fault {
      message := "Internal interpreter error: disk full", rule := some "internal",
      location := some ⟨"a", 1, 3, "+[.]"⟩, step := some 5, cause := some g }) := by
    rw [hlimited]
    simp [limited, s, tape, p, body, g, Verdict.stop?]
    decide
  have hstack : (limited.run 8 tape).state.stack.length = 2 := by
    rw [hlimited]
    simp [limited, s, tape, p, body, g, Verdict.state]
  have hsame := Verdict.stopped.inj (hends.unique (endsIn_of_stop? hstop))
  have hfault := Stop.fault.inj (congrArg Halt.stop hsame)
  have hdepth : ((d.state.start (.op .output l)).capped (2, g)).stack.length = 2 :=
    (congrArg (fun h : Halt Script => h.state.stack.length) hsame).trans hstack
  have hsteps : d.state.steps + 1 = 5 := Option.some.inj (congrArg Fault.step hfault)
  exact ⟨rfl, hwritten, p, d, l, _, _, hp, hd, Nat.succ.inj hsteps, hends, rfl, rfl,
    congrArg Fault.location hfault, congrArg some hsteps, hfront, hsteps, hdepth⟩

end Interp

end TapeLang
