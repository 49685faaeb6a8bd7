import TapeLang.Proofs.Moments

/-!
# The announcements of a run

Every run makes its announcements in order: the start of the program, those of its execution, and
the end of the program, or the fault that it reports. The log of a run lists them with the states
they are made in. Listeners are called for the announcements in the log, and for nothing else.
-/

namespace TapeLang

variable {L : Type}

/-- The state that a verdict leaves behind. -/
def Verdict.state : Verdict L → Interp L
  | .unparsed _ s | .finished s => s
  | .stopped h => h.state
  | .unfinished c => c.state

/-- Why a run stopped, if it did. -/
def Verdict.stop? : Verdict L → Option Stop
  | .stopped h => some h.stop
  | .unparsed _ _ | .finished _ | .unfinished _ => none

/-- A run that has stopped is told by the reason and the state it left. -/
theorem Verdict.eq_stopped {v : Verdict L} {stop : Stop} (h : v.stop? = some stop) :
    v = .stopped ⟨stop, v.state⟩ := by
  cases v with
  | stopped halt =>
    cases h
    rfl
  | unparsed | finished | unfinished => cases h

/-- A run that is seen to stop ends so. -/
theorem Interp.endsIn_of_stop? [Listener L] {s : Interp L} {tape : Tape} {fuel : Nat} {stop : Stop}
    (h : (s.run fuel tape).stop? = some stop) :
    s.EndsIn tape (.stopped ⟨stop, (s.run fuel tape).state⟩) := by
  have hv := Verdict.eq_stopped h
  rw [← hv]
  exact ⟨hv ▸ trivial, fuel, rfl⟩

/-- The fault that a run reports when its program halts, with the number of instructions that have
been started. Nothing but faults and failures is reported. -/
def Halt.reported : Halt L → Option Fault
  | ⟨.fault f, s⟩ => some { f with step := some s.steps }
  | ⟨.failure g, s⟩ => some { s.wrap g with step := some s.steps }
  | ⟨.exit _, _⟩ | ⟨.interrupt _, _⟩ | ⟨.quit _ _, _⟩ => none

/-- A notice that goes out while statements are executed. -/
def Notice.Inner : Notice → Prop
  | .before _ | .after _ | .entered _ | .left _ | .tick _ => True
  | .started | .ended | .failed _ | .bare _ => False

/-- A trigger that hears of each start of a statement, and of nothing else in a run. -/
def Trigger.AtStarts (tr : Trigger) : Prop :=
  tr = .on .beforeInstruction ∨ ∃ pos, tr = .every 1 pos

/-! ## What single moves change -/

namespace Interp

/-- An operation changes the tape and what has been written, and nothing else. -/
theorem operate_ok {s s' : Interp L} {o : Op} {place : Option Location}
    (h : s.operate o place = .ok s') :
    ∃ tape bench sink, sink.refusal = s.sink.refusal ∧ s' = { s with tape, bench, sink } := by
  have halter (f : Tape → Tape) : ∃ tape bench sink, sink.refusal = s.sink.refusal ∧
      s.alter f = { s with tape, bench, sink } := by
    rw [alter]
    split <;> exact ⟨_, _, s.sink, rfl, rfl⟩
  cases o with
  | left | right | increment | decrement =>
    cases h
    exact halter _
  | output =>
    simp only [operate, emit] at h
    split at h <;> cases h
    exact ⟨_, _, s.sink.taken _, rfl, rfl⟩
  | input => cases h

/-- An operation stops because the sink refuses a call, or because it asks for input. -/
theorem operate_error {s : Interp L} {o : Op} {place : Option Location} {h : Halt L}
    (he : s.operate o place = .error h) :
    (o = .output ∧ s.sink.refusal s.sink.calls = some h.stop ∧
        h.state = { s with sink := s.sink.refused }) ∨
      (o = .input ∧ h.state = s ∧
        ∃ f, h.stop = .fault f ∧ f.rule = some "InputReplace" ∧ f.location = place) := by
  cases o with
  | left | right | increment | decrement => cases he
  | output =>
    simp only [operate, emit] at he
    split at he
    · cases he
    · next stop hr =>
      cases he
      exact .inl ⟨rfl, hr, rfl⟩
  | input =>
    cases he
    exact .inr ⟨rfl, rfl, _, rfl, rfl, rfl⟩

end Interp

namespace Moment

variable {s s' : Interp L} {m m' : Moment} {n : Notice}

theorem Announces.inner (h : Announces s m n m') : n.Inner := by
  cases h <;> trivial

/-- Whether the passes under way are traced, from the innermost on. -/
def passes : Moment → List Bool
  | next _ traced loops | before _ _ traced loops | tick _ _ traced loops
  | effect _ _ traced loops | after _ _ traced loops => traced :: loops.map ActiveLoop.traced
  | entering l outer | turning l outer | leaving l outer | left l outer =>
    (l :: outer).map ActiveLoop.traced

theorem Announces.passes_eq (h : Announces s m n m') : m'.passes = m.passes := by
  cases h <;> rfl

/-- While somebody listens to instructions, the passes that begin are traced. -/
theorem Goes.traced (h : Goes s m s' m') (hidle : s.hooks.idle = false)
    (ht : ∀ traced ∈ m.passes, traced = true) : ∀ traced ∈ m'.passes, traced = true := by
  cases h with
  | again => exact fun traced hmem => ht traced (List.mem_cons_of_mem _ hmem)
  | turn =>
    refine List.forall_mem_cons.2 ⟨?_, ht⟩
    rw [hidle]
    rfl
  | _ => exact ht

/-- How many statements the next move starts. -/
def starting : Moment → Nat
  | next (_ :: _) _ _ => 1
  | _ => 0

/-- Only at the next statement of a pass is one started. -/
theorem starting_cases (m : Moment) :
    m.starting = 0 ∨ m.starting = 1 ∧ ∃ n rest traced loops, m = next (n :: rest) traced loops := by
  cases m with
  | next rest traced loops =>
    cases rest with
    | nil => exact .inl rfl
    | cons n rest => exact .inr ⟨rfl, n, rest, traced, loops, rfl⟩
  | _ => exact .inl rfl

theorem starting_of_distance_ne_zero (hm : m.distance ≠ 0) : m.starting = 0 := by
  cases m with
  | next => exact absurd rfl hm
  | _ => rfl

/-- The count goes up when a statement is started, and never otherwise. -/
theorem Goes.steps_eq (h : Goes s m s' m') : s'.steps = s.steps + m.starting := by
  cases h with
  | operate ok =>
    obtain ⟨tape, bench, sink, -, rfl⟩ := Interp.operate_ok ok
    rfl
  | _ => rfl

/-- By itself, execution calls no listener. -/
theorem Goes.hooks_journal (h : Goes s m s' m') : s'.hooks = s.hooks ∧ s'.journal = s.journal := by
  cases h with
  | operate ok =>
    obtain ⟨tape, bench, sink, -, rfl⟩ := Interp.operate_ok ok
    exact ⟨rfl, rfl⟩
  | _ => exact ⟨rfl, rfl⟩

/-- Execution does not change the way in which the sink refuses calls. -/
theorem Goes.refusal_eq (h : Goes s m s' m') : s'.sink.refusal = s.sink.refusal := by
  cases h with
  | operate ok =>
    obtain ⟨tape, bench, sink, hrefusal, rfl⟩ := Interp.operate_ok ok
    exact hrefusal
  | _ => rfl

/-- A statement that stops execution leaves all but the sink alone. -/
theorem Stops.exists_state_eq {halt : Halt L} (h : Stops s m halt) :
    ∃ sink, sink.refusal = s.sink.refusal ∧ halt.state = { s with sink } := by
  cases h with
  | operate error =>
    rcases Interp.operate_error error with ⟨-, -, hstate⟩ | ⟨-, hstate, -⟩
    · exact ⟨s.sink.refused, rfl, hstate⟩
    · exact ⟨s.sink, rfl, hstate⟩
  | deep | bare => exact ⟨s.sink, rfl, rfl⟩

/-- When the sink does nothing worse than fail, a statement that stops execution does so with
something to report. -/
theorem Stops.exists_reported {halt : Halt L} (hs : s.sink.Ordinary) (h : Stops s m halt) :
    ∃ f, halt.reported = some f := by
  cases h with
  | operate error =>
    obtain ⟨stop, t⟩ := halt
    rcases Interp.operate_error error with ⟨-, hrefusal, -⟩ | ⟨-, -, f, rfl, -⟩
    · obtain ⟨g, rfl⟩ := hs _ _ hrefusal
      exact ⟨_, rfl⟩
    · exact ⟨_, rfl⟩
  | deep | bare => exact ⟨_, rfl⟩

/-- How many of the statements that have been counted a trigger is still to hear of, when it hears
of each start once: by the announcement of it, or by the tick after that. -/
def due (tr : Trigger) : Moment → Nat
  | before _ _ _ _ => 1
  | tick _ _ _ _ => if tr.hears (.tick 0) then 1 else 0
  | _ => 0

/-- Such a trigger hears of a start by one of the two announcements that are made of it. -/
theorem Announces.due_eq {tr : Trigger} (htr : tr.AtStarts) (h : Announces s m n m') :
    m.due tr = m'.due tr + if tr.hears n.signal then 1 else 0 := by
  rcases htr with rfl | ⟨pos, rfl⟩
  · cases h <;> rfl
  · cases h with
    | tick => simp [due, Trigger.hears, Notice.signal]
    | before | after | entered | left => rfl

/-- In a traced pass, every statement that is started is to be heard of. -/
theorem Goes.due_eq (tr : Trigger) (h : Goes s m s' m') (ht : ∀ traced ∈ m.passes, traced = true) :
    m'.due tr = m.due tr + m.starting := by
  cases h with
  | before | tick => exact absurd (ht false List.mem_cons_self) Bool.false_ne_true
  | _ => rfl

end Moment

/-! ## The log of a run -/

namespace Interp

/-- The announcement of the start of a program. -/
def opening (s : Interp L) (p : Program) (tape : Tape) : Announcement L :=
  ⟨.started, s.load p tape, none, []⟩

/-- The announcement of the end of a program. -/
def closing (s : Interp L) : Announcement L := ⟨.ended, s, none, []⟩

/-- Between two states, listeners have been called for the announcements of a log, and for nothing
else: the journal has grown by calls that name such an announcement's notice and stack. -/
def CalledFor (s : Interp L) (log : List (Announcement L)) (t : Interp L) : Prop :=
  ∃ calls : List (Call L), t.journal.toList = s.journal.toList ++ calls ∧
    ∀ call ∈ calls, ∃ a ∈ log, call.notice = a.notice ∧ call.stack = a.state.stack

theorem CalledFor.refl (s : Interp L) : s.CalledFor [] s :=
  ⟨[], (List.append_nil _).symm, fun _ h => nomatch h⟩

theorem CalledFor.of_journal_eq {s t u : Interp L} {log : List (Announcement L)}
    (h : s.CalledFor log t) (hj : u.journal = t.journal) : s.CalledFor log u := by
  obtain ⟨calls, hcalls, hall⟩ := h
  exact ⟨calls, hj ▸ hcalls, hall⟩

/-- One more announcement brings the calls of its round. -/
theorem CalledFor.snoc {s t u : Interp L} {log : List (Announcement L)} (h : s.CalledFor log t)
    {a : Announcement L} (ha : a.state = t) (hu : t.Heard a.notice u) :
    s.CalledFor (log ++ [a]) u := by
  obtain ⟨calls, hcalls, hall⟩ := h
  obtain ⟨calls', hcalls', hall'⟩ := hu.calls
  refine ⟨calls ++ calls', ?_, fun call hc => ?_⟩
  · rw [hcalls', hcalls, List.append_assoc]
  · rcases List.mem_append.1 hc with hc | hc
    · obtain ⟨b, hb, hcall⟩ := hall call hc
      exact ⟨b, List.mem_append_left _ hb, hcall⟩
    · obtain ⟨hnotice, hstack, -⟩ := hall' call hc
      exact ⟨a, List.mem_append_right _ (List.mem_singleton_self a), hnotice, ha ▸ hstack⟩

theorem CalledFor.cons {s t u : Interp L} {log : List (Announcement L)} {a : Announcement L}
    (ha : a.state = s) (hs : s.Heard a.notice t) (h : t.CalledFor log u) :
    s.CalledFor (a :: log) u := by
  obtain ⟨calls, hcalls, hall⟩ := hs.calls
  obtain ⟨calls', hcalls', hall'⟩ := h
  refine ⟨calls ++ calls', ?_, fun call hc => ?_⟩
  · rw [hcalls', hcalls, List.append_assoc]
  · rcases List.mem_append.1 hc with hc | hc
    · obtain ⟨hnotice, hstack, -⟩ := hall call hc
      exact ⟨a, List.mem_cons_self, hnotice, ha ▸ hstack⟩
    · obtain ⟨b, hb, hcall⟩ := hall' call hc
      exact ⟨b, List.mem_cons_of_mem a hb, hcall⟩

variable [Listener L]

/-- A run makes these announcements and comes to this verdict. -/
inductive Tells (s : Interp L) (p : Program) (tape : Tape) :
    List (Announcement L) → Verdict L → Prop where
  /-- A listener stops the run at the start. -/
  | unstarted {h : Halt L} (start : s.begin p tape = .error h) :
      Tells s p tape [s.opening p tape] (.stopped h)
  /-- The program is still being executed. -/
  | unfinished {c d : Config L} {log : List (Announcement L)} (start : s.begin p tape = .ok c)
      (path : c.Leads log d.state d.moment) :
      Tells s p tape (s.opening p tape :: log) (.unfinished d)
  /-- The program has come to its end, which is announced. -/
  | concluded {c : Config L} {log : List (Announcement L)} {t : Interp L} {traced : Bool}
      (start : s.begin p tape = .ok c) (path : c.Leads log t (.next [] traced [])) :
      Tells s p tape (s.opening p tape :: (log ++ [t.closing])) t.conclude
  /-- Execution has halted with nothing to report, and the stop is passed on. -/
  | passed {c : Config L} {log : List (Announcement L)} {m : Moment} {h : Halt L}
      (start : s.begin p tape = .ok c) (path : c.Halts log m h) (signal : h.reported = none) :
      Tells s p tape (s.opening p tape :: log) (.stopped h)
  /-- Execution has halted otherwise, and the fault is announced. -/
  | reported {c : Config L} {log : List (Announcement L)} {m : Moment} {h : Halt L} {f : Fault}
      (start : s.begin p tape = .ok c) (path : c.Halts log m h) (fault : h.reported = some f) :
      Tells s p tape (s.opening p tape :: (log ++ [⟨.failed f, h.state, m.statement, m.loops⟩]))
        (.stopped (report h))

variable {s : Interp L} {p : Program} {tape : Tape}

theorem report_of_reported_none {h : Halt L} (hr : h.reported = none) : report h = h := by
  obtain ⟨stop, t⟩ := h
  cases stop with
  | fault | failure => cases hr
  | exit | interrupt | quit => rfl

/-- A fault that is reported is announced and passed on. -/
theorem report_of_reported {h : Halt L} {f : Fault} (hr : h.reported = some f) :
    report h = match h.state.announce (.failed f) with
      | .ok t => ⟨.fault f, t⟩
      | .error h' => h' := by
  obtain ⟨stop, t⟩ := h
  cases stop with
  | fault | failure =>
    cases hr
    rfl
  | exit | interrupt | quit => cases hr

/-- Every run of a program has a log. -/
theorem exists_tells (hp : s.parse = .ok p) (tape : Tape) (fuel : Nat) :
    ∃ log, s.Tells p tape log (s.run fuel tape) := by
  rw [run, hp]
  simp only [runProgram]
  cases hstart : s.begin p tape with
  | error h => exact ⟨_, .unstarted hstart⟩
  | ok c =>
    obtain ⟨log, hlog⟩ := c.exists_arrives fuel
    simp only
    cases hc : c.advance fuel with
    | running d =>
      rw [hc] at hlog
      exact ⟨_, .unfinished hstart hlog⟩
    | finished t =>
      rw [hc] at hlog
      obtain ⟨traced, path⟩ := hlog
      exact ⟨_, .concluded hstart path⟩
    | halted h =>
      rw [hc] at hlog
      obtain ⟨m, path⟩ := hlog
      cases hr : h.reported with
      | none =>
        simp only [report_of_reported_none hr]
        exact ⟨_, .passed hstart path hr⟩
      | some f => exact ⟨_, .reported hstart path hr⟩

/-- A program that begins has its start announced. -/
theorem begin_eq_ok {c : Config L} (h : s.begin p tape = .ok c) :
    (s.load p tape).announce .started = .ok c.state ∧ c = Config.enter c.state c.state.program := by
  rw [begin] at h
  split at h
  · next t ht =>
    cases h
    exact ⟨ht, rfl⟩
  · cases h

theorem begin_refusal_eq {c : Config L} (h : s.begin p tape = .ok c) :
    c.state.sink.refusal = s.sink.refusal :=
  (heard_of_announce_ok (begin_eq_ok h).1).refusal

theorem begin_eq_error {h : Halt L} (hb : s.begin p tape = .error h) :
    (s.load p tape).announce .started = .error h := by
  rw [begin] at hb
  split at hb
  · cases hb
  · next ht =>
    cases hb
    exact ht

/-- All that happens at the end of a program is its announcement, and that its frame is given up. -/
theorem exists_conclude (t : Interp L) : ∃ u, t.Heard .ended u ∧
    (t.conclude = .finished u.pop ∨ ∃ stop, t.conclude = .stopped ⟨stop, u⟩) := by
  rw [conclude]
  cases he : t.announce .ended with
  | ok u => exact ⟨u, heard_of_announce_ok he, .inl rfl⟩
  | error h => exact ⟨h.state, heard_of_announce_error he, .inr ⟨h.stop, rfl⟩⟩

/-- All that happens when a fault is reported is its announcement. -/
theorem report_heard {h : Halt L} {f : Fault} (hr : h.reported = some f) :
    h.state.Heard (.failed f) (report h).state := by
  have hstate : (report h).state = endState (h.state.announce (.failed f)) := by
    rw [report_of_reported hr]
    cases h.state.announce (.failed f) <;> rfl
  rw [hstate]
  exact h.state.announce_heard (.failed f)

end Interp

namespace Config

variable [Listener L] {c : Config L} {log : List (Announcement L)} {s : Interp L} {m : Moment}

/-- While statements are executed, the sink goes on refusing calls as it did. -/
theorem Leads.refusal_eq (path : c.Leads log s m) :
    s.sink.refusal = c.state.sink.refusal := by
  induction path with
  | refl => rfl
  | announce path move ok ih => exact (Interp.heard_of_announce_ok ok).refusal.trans ih
  | go path move ih => exact move.refusal_eq.trans ih

/-- While statements are executed, listeners are called for the announcements on the way. -/
theorem Leads.calledFor (path : c.Leads log s m) : c.state.CalledFor log s := by
  induction path with
  | refl => exact .refl _
  | announce path move ok ih => exact ih.snoc rfl (Interp.heard_of_announce_ok ok)
  | go path move ih => exact ih.of_journal_eq move.hooks_journal.2

/-- The announcement in which execution is stopped has its calls, too. -/
theorem Halts.calledFor {h : Halt L} (path : c.Halts log m h) : c.state.CalledFor log h.state := by
  cases path with
  | stopped path move =>
    obtain ⟨sink, -, hstate⟩ := move.exists_state_eq
    rw [hstate]
    exact path.calledFor.of_journal_eq rfl
  | refused path move error => exact path.calledFor.snoc rfl (Interp.heard_of_announce_error error)

end Config

/-- In a run, listeners are called for the announcements of its log, and for nothing else. -/
theorem Interp.Tells.calledFor [Listener L] {s : Interp L} {p : Program} {tape : Tape}
    {log : List (Announcement L)} {v : Verdict L} (h : s.Tells p tape log v) :
    s.CalledFor log v.state := by
  have hload : (s.load p tape).CalledFor log v.state := by
    cases h with
    | unstarted start =>
      exact (CalledFor.refl _).snoc rfl (heard_of_announce_error (begin_eq_error start))
    | unfinished start path =>
      exact .cons rfl (heard_of_announce_ok (begin_eq_ok start).1) path.calledFor
    | @concluded c log t traced start path =>
      refine .cons rfl (heard_of_announce_ok (begin_eq_ok start).1) ?_
      obtain ⟨u, hu, hv⟩ := t.exists_conclude
      have hclosed := path.calledFor.snoc (a := t.closing) rfl hu
      rcases hv with hv | ⟨stop, hv⟩
      · rw [hv]
        exact hclosed.of_journal_eq rfl
      · rw [hv]
        exact hclosed
    | passed start path signal =>
      exact .cons rfl (heard_of_announce_ok (begin_eq_ok start).1) path.calledFor
    | reported start path fault =>
      refine .cons rfl (heard_of_announce_ok (begin_eq_ok start).1) ?_
      exact path.calledFor.snoc rfl (report_heard fault)
  exact hload

end TapeLang
