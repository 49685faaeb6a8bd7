import Mathlib.Order.Monotone.Basic
import TapeLang.Proofs.Announcements
import TapeLang.Proofs.Observers

/-!
# Execution without listeners

The same state with nobody to listen is its silent form. What execution does by itself it does in
silence, too, up to who listens and which passes are traced. As long as announcements change nothing
but the record of the calls, every step is therefore the step of the silent form. How long that is
the listeners say, by an invariant that holds while few enough statements have been started.
-/

namespace TapeLang

variable {L : Type}

/-! ## Silent forms -/

/-- The same state with nobody to listen, and with a journal of its own. -/
def Interp.hush (journal : Array (Call L)) (s : Interp L) : Interp L :=
  { s with hooks := #[], journal }

/-- The same loop, in a pass that is not traced. -/
def ActiveLoop.hush (l : ActiveLoop) : ActiveLoop := { l with traced := false }

/-- The same moment, in passes that are not traced. -/
def Moment.hush : Moment → Moment
  | .next rest _ loops => .next rest false (loops.map ActiveLoop.hush)
  | .before n rest _ loops => .before n rest false (loops.map ActiveLoop.hush)
  | .tick n rest _ loops => .tick n rest false (loops.map ActiveLoop.hush)
  | .effect n rest _ loops => .effect n rest false (loops.map ActiveLoop.hush)
  | .after n rest _ loops => .after n rest false (loops.map ActiveLoop.hush)
  | .entering l outer => .entering l.hush (outer.map ActiveLoop.hush)
  | .turning l outer => .turning l.hush (outer.map ActiveLoop.hush)
  | .leaving l outer => .leaving l.hush (outer.map ActiveLoop.hush)
  | .left l outer => .left l.hush (outer.map ActiveLoop.hush)

/-- The same configuration with nobody to listen. -/
def Config.hush (journal : Array (Call L)) (c : Config L) : Config L :=
  ⟨c.state.hush journal, c.rest, false, c.loops.map ActiveLoop.hush⟩

/-- The same halt with nobody to listen. -/
def Halt.hush (journal : Array (Call L)) (h : Halt L) : Halt L := ⟨h.stop, h.state.hush journal⟩

/-- The same progress with nobody to listen. -/
def Progress.hush (journal : Array (Call L)) : Progress L → Progress L
  | .running c => .running (c.hush journal)
  | .finished s => .finished (s.hush journal)
  | .halted h => .halted (h.hush journal)

/-- The state that execution has come to. -/
def Progress.state : Progress L → Interp L
  | .running c => c.state
  | .finished s => s
  | .halted h => h.state

namespace Progress

variable {r : Progress L} {d : Config L} {journal : Array (Call L)}

theorem state_hush (r : Progress L) (journal : Array (Call L)) :
    (r.hush journal).state = r.state.hush journal := by
  cases r <;> rfl

theorem hush_eq_running (h : r.hush journal = .running d) :
    ∃ c, r = .running c ∧ c.hush journal = d := by
  cases r with
  | running c => exact ⟨c, rfl, Progress.running.inj h⟩
  | finished | halted => cases h

/-- The invariant holds where execution has come to. -/
def Keeps (inv : Interp L → Moment → Prop) : Progress L → Prop
  | .running c => inv c.state c.moment
  | .finished s => ∃ m, inv s m
  | .halted h => ∃ m, inv h.state m

theorem Keeps.exists_moment {inv : Interp L → Moment → Prop} (h : r.Keeps inv) :
    ∃ m, inv r.state m := by
  cases r with
  | running c => exact ⟨c.moment, h⟩
  | finished s => exact h
  | halted halt => exact h

end Progress

namespace Interp

variable {s t : Interp L} {journal : Array (Call L)}

/-- States that are the same without listeners differ in their listeners at most. -/
theorem alike_of_hush_eq (h : s.hush journal = t.hush journal) : s.Alike t where
  source := (congrArg source h :)
  file := (congrArg file h :)
  steps := (congrArg steps h :)
  stack := (congrArg stack h :)
  tape := (congrArg tape h :)
  bench := (congrArg bench h :)
  program := (congrArg program h :)
  sink := (congrArg sink h :)
  reports := (congrArg reports h :)

theorem alter_hush (s : Interp L) (journal : Array (Call L)) (f : Tape → Tape) :
    (s.hush journal).alter f = (s.alter f).hush journal := by
  rw [alter, alter]
  cases hb : s.bench with
  | none => simp only [hush, hb]
  | some tape => simp only [hush, hb]

/-- Operations take no notice of listeners. -/
theorem operate_hush (s : Interp L) (journal : Array (Call L)) (o : Op) (place : Option Location) :
    (s.hush journal).operate o place = match s.operate o place with
      | .ok t => .ok (t.hush journal)
      | .error h => .error (h.hush journal) := by
  cases o with
  | left | right | increment | decrement => exact congrArg Except.ok (s.alter_hush journal _)
  | output =>
    have hcell : (s.hush journal).cell = s.cell := rfl
    have hsink : (s.hush journal).sink = s.sink := rfl
    rw [operate, operate, emit, emit, hcell, hsink]
    cases s.sink.refusal s.sink.calls <;> rfl
  | input => rfl

end Interp

namespace Moment

variable {s s' : Interp L} {m m' : Moment} {n : Notice} {journal : Array (Call L)}

theorem distance_hush (m : Moment) : m.hush.distance = m.distance := by
  cases m <;> rfl

theorem starting_hush (m : Moment) : m.hush.starting = m.starting := by
  cases m with
  | next rest traced loops => cases rest <;> rfl
  | _ => rfl

/-- What execution does by itself, it does without listeners. -/
theorem Goes.hush (move : Goes s m s' m') (journal : Array (Call L)) :
    Goes (s.hush journal) m.hush (s'.hush journal) m'.hush := by
  cases move with
  | start => exact .start
  | again => exact .again
  | before => exact .before
  | tick => exact .tick
  | after => exact .after
  | operate ok => exact .operate (by rw [Interp.operate_hush, ok])
  | skip zero => exact .skip zero
  | enter nonzero shallow => exact .enter nonzero (by rwa [List.length_map])
  | @turn l outer nonzero =>
    have hidle : (s.hush journal).hooks.idle = true := Hooks.idle_empty
    have hmove : Goes (s.hush journal) (turning l.hush (outer.map ActiveLoop.hush)) _ _ :=
      .turn nonzero
    rwa [hidle] at hmove
  | done zero => exact .done zero
  | leave => exact .leave

/-- A statement that stops execution does so without listeners. -/
theorem Stops.hush {h : Halt L} (move : Stops s m h) (journal : Array (Call L)) :
    Stops (s.hush journal) m.hush (h.hush journal) := by
  cases move with
  | operate error => exact .operate (by rw [Interp.operate_hush, error])
  | deep nonzero deep => exact .deep nonzero (by rwa [List.length_map])
  | bare => exact .bare

theorem Stops.distance_ne_zero {h : Halt L} (move : Stops s m h) : m.distance ≠ 0 := by
  cases move <;> exact Nat.succ_ne_zero _

/-- By itself, execution reports nothing. -/
theorem Goes.reports_eq (move : Goes s m s' m') : s'.reports = s.reports := by
  cases move with
  | operate ok =>
    obtain ⟨tape, bench, sink, -, rfl⟩ := Interp.operate_ok ok
    rfl
  | _ => rfl

end Moment

/-! ## Steps -/

variable [Listener L]

namespace Moment

variable {s s' : Interp L} {m m' : Moment} {n : Notice} {journal : Array (Call L)}

/-- Without listeners an announcement leads on to the next moment. -/
theorem Announces.resume_hush (move : Announces s m n m') (journal : Array (Call L)) :
    m.hush.resume (s.hush journal) = m'.hush.resume (s.hush journal) := by
  have hsilent (n : Notice) : (s.hush journal).announce n = .ok (s.hush journal) :=
    Interp.announce_of_no_hooks rfl n
  cases move with
  | before | tick | after => rfl
  | @entered l outer =>
    have hmove : Announces (s.hush journal) (entering l.hush (outer.map ActiveLoop.hush)) _ _ :=
      .entered
    have heq := hmove.proceed_eq
    rwa [hsilent] at heq
  | @left l outer =>
    have hmove : Announces (s.hush journal) (leaving l.hush (outer.map ActiveLoop.hush)) _ _ :=
      .left
    have heq := hmove.proceed_eq
    rwa [hsilent] at heq

/-- What execution does by itself leads on to the next moment without listeners. -/
theorem Goes.resume_hush (move : Goes s m s' m') (within : m.distance ≠ 0)
    (journal : Array (Call L)) :
    m.hush.resume (s.hush journal) = m'.hush.resume (s'.hush journal) := by
  rw [← (move.hush journal).proceed_eq]
  exact (proceed_eq_resume (by rwa [distance_hush])).symm

theorem Stops.resume_hush {h : Halt L} (move : Stops s m h) (journal : Array (Call L)) :
    m.hush.resume (s.hush journal) = .halted (h.hush journal) := by
  rw [← (move.hush journal).proceed_eq, proceed_eq_resume]
  rw [distance_hush]
  exact move.distance_ne_zero

/-- The rest of a step starts no statement. -/
theorem Resumes.steps_eq {r : Progress L} (h : m.Resumes s r) : r.state.steps = s.steps := by
  induction h with
  | next => rfl
  | announce move ok later ih => exact ih.trans (Interp.heard_of_announce_ok ok).steps
  | go within move later ih =>
    rw [ih, move.steps_eq, starting_of_distance_ne_zero within, Nat.add_zero]
  | refuse move error => exact (Interp.heard_of_announce_error error).steps
  | stop move =>
    obtain ⟨sink, -, hstate⟩ := move.exists_state_eq
    rw [Progress.state, hstate]

end Moment

namespace Config

variable {c d : Config L}

/-- A step starts a statement if its pass has one left. -/
theorem step_steps (c : Config L) : c.step.state.steps = c.state.steps + c.moment.starting := by
  rcases c.step_cases with ⟨s, m, move, hstep⟩ | ⟨⟨traced, hend⟩, hstep⟩
  · rw [hstep, (m.resumes s).steps_eq, move.steps_eq]
  · rw [hstep, hend]
    rfl

/-- The count of statements never goes down. -/
theorem advance_steps_le (c : Config L) (m : Nat) :
    (c.advance m).state.steps ≤ (c.advance (m + 1)).state.steps := by
  rcases c.advance_succ_cases m with ⟨d, hd, hnext⟩ | ⟨-, hnext⟩
  · rw [hd, hnext, step_steps]
    exact Nat.le_add_right _ _
  · rw [hnext]

theorem advance_steps_mono (c : Config L) : Monotone fun m => (c.advance m).state.steps :=
  monotone_nat_of_le_succ c.advance_steps_le

end Config

/-- Without listeners nothing is ever reported. -/
theorem Config.Leads.reports_eq {c : Config L} {log : List (Announcement L)} {s : Interp L}
    {m : Moment} (path : c.Leads log s m) (h : c.state.hooks = #[]) :
    s.hooks = #[] ∧ s.reports = c.state.reports := by
  induction path with
  | refl => exact ⟨h, rfl⟩
  | announce path move ok ih =>
    rw [Interp.announce_of_no_hooks ih.1] at ok
    cases ok
    exact ih
  | go path move ih =>
    exact ⟨move.hooks_journal.1.trans ih.1, move.reports_eq.trans ih.2⟩

/-- Without listeners execution halts at a statement. -/
theorem Config.Halts.exists_stops_of_no_hooks {c : Config L} {log : List (Announcement L)}
    {m : Moment} {halt : Halt L} (path : c.Halts log m halt) (h : c.state.hooks = #[]) :
    ∃ s, c.Leads log s m ∧ m.Stops s halt := by
  cases path with
  | @stopped log s m halt path move => exact ⟨s, path, move⟩
  | refused path move error =>
    rw [Interp.announce_of_no_hooks (path.reports_eq h).1] at error
    cases error

/-- Without listeners nobody comes to listen. -/
theorem Config.advance_of_no_hooks {c : Config L} (h : c.state.hooks = #[]) (n : Nat) :
    (c.advance n).state.hooks = #[] := by
  obtain ⟨log, harrives⟩ := c.exists_arrives n
  cases hc : c.advance n with
  | running d =>
    rw [hc] at harrives
    have path : c.Leads log d.state d.moment := harrives
    exact (path.reports_eq h).1
  | finished s =>
    rw [hc] at harrives
    obtain ⟨traced, path⟩ := harrives
    exact (path.reports_eq h).1
  | halted halt =>
    rw [hc] at harrives
    obtain ⟨m, path⟩ := harrives
    obtain ⟨s, path, move⟩ := path.exists_stops_of_no_hooks h
    obtain ⟨sink, -, hstate⟩ := move.exists_state_eq
    exact (congrArg Interp.hooks hstate).trans (path.reports_eq h).1

/-- Without listeners, and with a sink that does nothing worse than fail, execution halts only with
something to report. -/
theorem Config.exists_reported_of_no_hooks {c : Config L} (h : c.state.hooks = #[])
    (hk : c.state.sink.Ordinary) {n : Nat} {halt : Halt L} (hn : c.advance n = .halted halt) :
    ∃ f, halt.reported = some f := by
  obtain ⟨log, harrives⟩ := c.exists_arrives n
  rw [hn] at harrives
  obtain ⟨m, path⟩ := harrives
  obtain ⟨s, path, move⟩ := path.exists_stops_of_no_hooks h
  exact move.exists_reported (hk.of_refusal_eq path.refusal_eq)

/-! ## Listeners that change nothing -/

/-- As long as the invariant holds and fewer than `bound` statements have been started, an
announcement changes nothing but the record of the calls. -/
structure Passive (journal : Array (Call L)) (bound : Nat) (inv : Interp L → Moment → Prop) :
    Prop where
  announce : ∀ {s m n m'}, inv s m → s.steps < bound → Moment.Announces s m n m' →
    ∃ t, s.announce n = .ok t ∧ t.hush journal = s.hush journal ∧ inv t m'
  go : ∀ {s m s' m'}, inv s m → Moment.Goes s m s' m' → inv s' m'
  stop : ∀ {s m sink}, inv s m → inv { s with sink } m

namespace Passive

variable {journal : Array (Call L)} {bound : Nat} {inv : Interp L → Moment → Prop}

/-- The rest of a step is that of its silent form. -/
theorem resume (hp : Passive journal bound inv) {s : Interp L} {m : Moment} {r : Progress L}
    (hr : m.Resumes s r) (h : inv s m) (hs : s.steps < bound) :
    r.hush journal = m.hush.resume (s.hush journal) ∧ r.Keeps inv := by
  induction hr with
  | next => exact ⟨rfl, h⟩
  | announce move ok later ih =>
    obtain ⟨t, ht, hhush, ht'⟩ := hp.announce h hs move
    obtain rfl := Except.ok.inj (ok.symm.trans ht)
    rw [← (Interp.heard_of_announce_ok ht).steps] at hs
    rw [move.resume_hush, ← hhush]
    exact ih ht' hs
  | refuse move error =>
    obtain ⟨t, ht, -⟩ := hp.announce h hs move
    cases ht.symm.trans error
  | go within move later ih =>
    have hsteps := move.steps_eq
    rw [Moment.starting_of_distance_ne_zero within] at hsteps
    rw [move.resume_hush within]
    exact ih (hp.go h move) (hsteps ▸ hs)
  | @stop s m halt move =>
    obtain ⟨sink, -, hstate⟩ := move.exists_state_eq
    refine ⟨(move.resume_hush journal).symm, m, ?_⟩
    rw [hstate]
    exact hp.stop h

variable {c d : Config L}

/-- A step that stays below the bound is that of the silent form. -/
theorem step (hp : Passive journal bound inv) (h : inv c.state c.moment)
    (hs : c.state.steps + c.moment.starting < bound) :
    c.step.hush journal = (c.hush journal).step ∧ c.step.Keeps inv := by
  rcases c.step_cases with ⟨s, m, move, hstep⟩ | ⟨⟨traced, hend⟩, hstep⟩
  · have hquiet : (c.hush journal).step = m.hush.resume (s.hush journal) :=
      (move.hush journal).proceed_eq
    rw [hstep, hquiet]
    exact hp.resume (m.resumes s) (hp.go h move) (move.steps_eq ▸ hs)
  · have hquiet : (c.hush journal).step = c.moment.hush.proceed (c.state.hush journal) := rfl
    rw [hend] at hquiet
    rw [hstep, hquiet]
    exact ⟨rfl, _, h⟩

/-- Execution that stays below the bound is that of the silent form. -/
theorem advance (hp : Passive journal bound inv) (h : inv c.state c.moment) {m : Nat}
    (hs : ((c.hush journal).advance m).state.steps < bound) :
    (c.advance m).hush journal = (c.hush journal).advance m ∧ (c.advance m).Keeps inv := by
  -- the count never goes down, so the steps before the last keep below the bound as well
  induction m with
  | zero => exact ⟨rfl, h⟩
  | succ m ih =>
    obtain ⟨heq, hinv⟩ := ih (Nat.lt_of_le_of_lt (Config.advance_steps_le _ m) hs)
    cases hc : c.advance m with
    | running d =>
      rw [hc] at heq hinv
      rw [Config.advance_succ heq.symm] at hs ⊢
      rw [Config.advance_succ hc]
      rw [Config.step_steps] at hs
      have hstarting : (d.hush journal).moment.starting = d.moment.starting :=
        d.moment.starting_hush
      rw [hstarting] at hs
      exact hp.step hinv hs
    | finished | halted =>
      have hover : (c.advance m).Settled := by rw [hc]; trivial
      have hover' : ((c.hush journal).advance m).Settled := by rw [← heq, hc]; trivial
      rw [Config.advance_stable hover, Config.advance_stable hover']
      exact ⟨heq, hinv⟩

end Passive

end TapeLang
