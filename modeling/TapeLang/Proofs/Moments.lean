import TapeLang.Proofs.Ending
import TapeLang.Proofs.Rounds

/-!
# Execution moment by moment

One step of execution may call listeners several times over. Between two calls it is at a moment,
and at each moment it does one thing only: it makes an announcement, changes the state with nobody
listening, or stops. The moments that execution goes through lead to the same progress as its steps,
and the announcements on the way make up its log.
-/

namespace TapeLang

variable {L : Type}

/-- A place within a step of execution. -/
inductive Moment where
  /-- The next statement of the pass is to be started, if there is one. -/
  | next (rest : List Node) (traced : Bool) (loops : List ActiveLoop)
  /-- A statement has been counted, and the listeners are to hear of it. -/
  | before (n : Node) (rest : List Node) (traced : Bool) (loops : List ActiveLoop)
  /-- The listeners are to hear the count. -/
  | tick (n : Node) (rest : List Node) (traced : Bool) (loops : List ActiveLoop)
  /-- The statement is to take effect. -/
  | effect (n : Node) (rest : List Node) (traced : Bool) (loops : List ActiveLoop)
  /-- The statement has taken effect, and the listeners are to hear of it. -/
  | after (n : Node) (rest : List Node) (traced : Bool) (loops : List ActiveLoop)
  /-- A loop has its frame, and the listeners are to hear of it. -/
  | entering (l : ActiveLoop) (outer : List ActiveLoop)
  /-- The cell of a loop is to be tested for the next pass. -/
  | turning (l : ActiveLoop) (outer : List ActiveLoop)
  /-- A loop is through with its passes, and the listeners are to hear of it. -/
  | leaving (l : ActiveLoop) (outer : List ActiveLoop)
  /-- The frame of a loop is to be given up. -/
  | left (l : ActiveLoop) (outer : List ActiveLoop)

/-- The moment at which a configuration is. -/
def Config.moment (c : Config L) : Moment := .next c.rest c.traced c.loops

/-- One announcement: the notice, the state it is made in, the statement it is about, if it is about
the start or the end of one, and the loops that are active, the innermost first. -/
structure Announcement (L : Type) where
  notice : Notice
  state : Interp L
  statement : Option Node
  loops : List ActiveLoop

namespace Moment

/-- The statement that has been started and is not over yet, or that has just ended. -/
def statement : Moment → Option Node
  | before n _ _ _ | tick n _ _ _ | effect n _ _ _ | after n _ _ _ => some n
  | _ => none

/-- The active loops, the innermost first. -/
def loops : Moment → List ActiveLoop
  | next _ _ loops | before _ _ _ loops | tick _ _ _ loops | effect _ _ _ loops
  | after _ _ _ loops => loops
  | entering l outer | turning l outer | leaving l outer | left l outer => l :: outer

/-- The announcement of a notice at a moment. -/
def announcement (m : Moment) (s : Interp L) (n : Notice) : Announcement L :=
  ⟨n, s, m.statement, m.loops⟩

/-! ## Moves -/

/-- A moment at which an announcement is made, and the moment after it. -/
inductive Announces (s : Interp L) : Moment → Notice → Moment → Prop where
  | before {n : Node} {rest : List Node} {loops : List ActiveLoop} :
      Announces s (before n rest true loops) (.before n) (tick n rest true loops)
  | tick {n : Node} {rest : List Node} {loops : List ActiveLoop} :
      Announces s (tick n rest true loops) (.tick s.steps) (effect n rest true loops)
  | after {n : Node} {rest : List Node} {loops : List ActiveLoop} :
      Announces s (after n rest true loops) (.after n) (next rest true loops)
  | entered {l : ActiveLoop} {outer : List ActiveLoop} :
      Announces s (entering l outer) (.entered l.node) (turning l outer)
  | left {l : ActiveLoop} {outer : List ActiveLoop} :
      Announces s (leaving l outer) (.left l.node) (left l outer)

/-- A moment at which execution goes on by itself, and the state and the moment after it. -/
inductive Goes (s : Interp L) : Moment → Interp L → Moment → Prop where
  | start {n : Node} {rest : List Node} {traced : Bool} {loops : List ActiveLoop} :
      Goes s (next (n :: rest) traced loops) (s.start n) (before n rest traced loops)
  | again {traced : Bool} {l : ActiveLoop} {outer : List ActiveLoop} :
      Goes s (next [] traced (l :: outer)) s (turning l outer)
  | before {n : Node} {rest : List Node} {loops : List ActiveLoop} :
      Goes s (before n rest false loops) s (tick n rest false loops)
  | tick {n : Node} {rest : List Node} {loops : List ActiveLoop} :
      Goes s (tick n rest false loops) s (effect n rest false loops)
  | operate {o : Op} {place : Option Location} {rest : List Node} {traced : Bool}
      {loops : List ActiveLoop} {s' : Interp L} (ok : s.operate o place = .ok s') :
      Goes s (effect (.op o place) rest traced loops) s' (after (.op o place) rest traced loops)
  | skip {place : Location} {body rest : List Node} {traced : Bool} {loops : List ActiveLoop}
      (zero : s.cell = 0) :
      Goes s (effect (.loop place body) rest traced loops) s
        (after (.loop place body) rest traced loops)
  | enter {place : Location} {body rest : List Node} {traced : Bool} {loops : List ActiveLoop}
      (nonzero : s.cell ≠ 0) (shallow : loops.length < Config.maxActive) :
      Goes s (effect (.loop place body) rest traced loops) (s.push (Frame.ofLoop place))
        (entering ⟨place, body, rest, traced⟩ loops)
  | after {n : Node} {rest : List Node} {loops : List ActiveLoop} :
      Goes s (after n rest false loops) s (next rest false loops)
  | turn {l : ActiveLoop} {outer : List ActiveLoop} (nonzero : s.cell ≠ 0) :
      Goes s (turning l outer) s (next l.body (!s.hooks.idle) (l :: outer))
  | done {l : ActiveLoop} {outer : List ActiveLoop} (zero : s.cell = 0) :
      Goes s (turning l outer) s (leaving l outer)
  | leave {l : ActiveLoop} {outer : List ActiveLoop} :
      Goes s (left l outer) s.pop (after l.node l.rest l.traced outer)

/-- A moment at which a statement stops execution. -/
inductive Stops (s : Interp L) : Moment → Halt L → Prop where
  | operate {o : Op} {place : Option Location} {rest : List Node} {traced : Bool}
      {loops : List ActiveLoop} {h : Halt L} (error : s.operate o place = .error h) :
      Stops s (effect (.op o place) rest traced loops) h
  | deep {place : Location} {body rest : List Node} {traced : Bool} {loops : List ActiveLoop}
      (nonzero : s.cell ≠ 0) (deep : Config.maxActive ≤ loops.length) :
      Stops s (effect (.loop place body) rest traced loops) ⟨.failure .nesting, s⟩
  | bare {place : Option Location} {rest : List Node} {traced : Bool} {loops : List ActiveLoop} :
      Stops s (effect (.bare place) rest traced loops) (s.refuse place)

/-- At every moment execution makes an announcement, goes on, stops, or is over. -/
theorem exists_move (s : Interp L) (m : Moment) :
    (∃ n m', Announces s m n m') ∨ (∃ s' m', Goes s m s' m') ∨ (∃ h, Stops s m h) ∨
      ∃ traced, m = next [] traced [] := by
  cases m with
  | next rest traced loops =>
    cases rest with
    | nil =>
      cases loops with
      | nil => exact .inr (.inr (.inr ⟨traced, rfl⟩))
      | cons l outer => exact .inr (.inl ⟨_, _, .again⟩)
    | cons n rest => exact .inr (.inl ⟨_, _, .start⟩)
  | before _ _ traced _ =>
    cases traced with
    | true => exact .inl ⟨_, _, .before⟩
    | false => exact .inr (.inl ⟨_, _, .before⟩)
  | tick _ _ traced _ =>
    cases traced with
    | true => exact .inl ⟨_, _, .tick⟩
    | false => exact .inr (.inl ⟨_, _, .tick⟩)
  | effect n rest traced loops =>
    cases n with
    | op o place =>
      cases h : s.operate o place with
      | ok s' => exact .inr (.inl ⟨_, _, .operate h⟩)
      | error halt => exact .inr (.inr (.inl ⟨_, .operate h⟩))
    | loop place body =>
      by_cases hz : s.cell = 0
      · exact .inr (.inl ⟨_, _, .skip hz⟩)
      · by_cases hd : loops.length < Config.maxActive
        · exact .inr (.inl ⟨_, _, .enter hz hd⟩)
        · exact .inr (.inr (.inl ⟨_, .deep hz (Nat.le_of_not_lt hd)⟩))
    | bare place => exact .inr (.inr (.inl ⟨_, .bare⟩))
  | after _ _ traced _ =>
    cases traced with
    | true => exact .inl ⟨_, _, .after⟩
    | false => exact .inr (.inl ⟨_, _, .after⟩)
  | entering => exact .inl ⟨_, _, .entered⟩
  | turning =>
    by_cases hz : s.cell = 0
    · exact .inr (.inl ⟨_, _, .done hz⟩)
    · exact .inr (.inl ⟨_, _, .turn hz⟩)
  | leaving => exact .inl ⟨_, _, .left⟩
  | left => exact .inr (.inl ⟨_, _, .leave⟩)

/-- How far a moment is from the end of its step. -/
def distance : Moment → Nat
  | next _ _ _ => 0
  | after _ _ _ _ => 1
  | left _ _ => 2
  | leaving _ _ => 3
  | turning _ _ => 4
  | entering _ _ => 5
  | effect _ _ _ _ => 6
  | tick _ _ _ _ => 7
  | before _ _ _ _ => 8

variable {s s' : Interp L} {m m' : Moment} {n : Notice}

theorem Announces.distance_lt (h : Announces s m n m') : m'.distance < m.distance := by
  cases h <;> simp [distance]

theorem Goes.distance_lt (h : Goes s m s' m') (hm : m.distance ≠ 0) :
    m'.distance < m.distance := by
  cases h with
  | start | again => exact absurd rfl hm
  | _ => simp [distance]

/-! ## Moments and steps -/

variable [Listener L]

/-- The progress that the rest of a step makes from a moment on. -/
def resume (s : Interp L) : Moment → Progress L
  | next rest traced loops => .running ⟨s, rest, traced, loops⟩
  | before n rest traced loops =>
    match s.announceBefore traced n with
    | .ok s => Config.perform s n rest traced loops
    | .error h => .halted h
  | tick n rest traced loops =>
    match (if traced then s.announce (.tick s.steps) else .ok s) with
    | .ok s => Config.perform s n rest traced loops
    | .error h => .halted h
  | effect n rest traced loops => Config.perform s n rest traced loops
  | after n rest traced loops =>
    .ofResult (s.announceAfter traced n) fun s => ⟨s, rest, traced, loops⟩
  | entering l outer =>
    match s.announce (.entered l.node) with
    | .ok s => Config.turn s l outer
    | .error h => .halted h
  | turning l outer => Config.turn s l outer
  | leaving l outer => Config.leave s l outer
  | left l outer =>
    .ofResult (s.pop.announceAfter l.traced l.node) fun s => ⟨s, l.rest, l.traced, outer⟩

/-- The same, when a step begins with the moment between two statements. -/
def proceed (s : Interp L) : Moment → Progress L
  | next rest traced loops => Config.step ⟨s, rest, traced, loops⟩
  | m => m.resume s

theorem proceed_eq_resume (hm : m.distance ≠ 0) : m.proceed s = m.resume s := by
  cases m with
  | next => exact absurd rfl hm
  | _ => rfl

/-- After an announcement execution goes on at the next moment, unless a listener stops it. -/
theorem Announces.proceed_eq (h : Announces s m n m') :
    m.proceed s = match s.announce n with
      | .ok s' => m'.resume s'
      | .error halt => .halted halt := by
  cases h with
  | @before n rest loops =>
    simp only [proceed, resume, Interp.announceBefore, if_true]
    cases s.announce (.before n) <;> rfl
  | @after n rest loops =>
    simp only [proceed, resume, Interp.announceAfter, if_true]
    cases s.announce (.after n) <;> rfl
  | tick | entered | left => rfl

theorem Goes.proceed_eq (h : Goes s m s' m') : m.proceed s = m'.resume s' := by
  cases h with
  | operate ok => simp only [proceed, resume, Config.perform, ok]
  | skip zero => exact if_pos zero
  | enter nonzero shallow => exact (if_neg nonzero).trans (if_neg (Nat.not_le_of_lt shallow))
  | turn nonzero => exact if_neg nonzero
  | done zero => exact if_pos zero
  | start | again | before | tick | after | leave => rfl

/-- Where a statement stops execution, the step halts. -/
theorem Stops.proceed_eq {halt : Halt L} (h : Stops s m halt) : m.proceed s = .halted halt := by
  cases h with
  | operate error => simp only [proceed, resume, Config.perform, error]
  | deep nonzero deep => exact (if_neg nonzero).trans (if_pos deep)
  | bare => rfl

/-- The rest of a step, move by move. -/
inductive Resumes : Interp L → Moment → Progress L → Prop where
  | next {s : Interp L} {rest : List Node} {traced : Bool} {loops : List ActiveLoop} :
      Resumes s (next rest traced loops) (.running ⟨s, rest, traced, loops⟩)
  | announce {s s' : Interp L} {m m' : Moment} {n : Notice} {r : Progress L}
      (move : Announces s m n m') (ok : s.announce n = .ok s') (later : Resumes s' m' r) :
      Resumes s m r
  | refuse {s : Interp L} {m m' : Moment} {n : Notice} {h : Halt L} (move : Announces s m n m')
      (error : s.announce n = .error h) : Resumes s m (.halted h)
  | go {s s' : Interp L} {m m' : Moment} {r : Progress L} (within : m.distance ≠ 0)
      (move : Goes s m s' m') (later : Resumes s' m' r) : Resumes s m r
  | stop {s : Interp L} {m : Moment} {h : Halt L} (move : Stops s m h) : Resumes s m (.halted h)

/-- The rest of a step goes through moments. -/
theorem resumes (s : Interp L) (m : Moment) : m.Resumes s (m.resume s) := by
  induction hd : m.distance using Nat.strongRecOn generalizing s m with
  | ind k ih =>
    by_cases hm : m.distance = 0
    · cases m with
      | next rest traced loops => exact .next
      | _ => simp [distance] at hm
    · rw [← proceed_eq_resume hm]
      rcases m.exists_move s with ⟨n, m', h⟩ | ⟨s', m', h⟩ | ⟨halt, h⟩ | ⟨traced, rfl⟩
      · rw [h.proceed_eq]
        cases hn : s.announce n with
        | ok s' => exact .announce h hn (ih _ (hd ▸ h.distance_lt) s' m' rfl)
        | error halt => exact .refuse h hn
      · rw [h.proceed_eq]
        exact .go hm h (ih _ (hd ▸ h.distance_lt hm) s' m' rfl)
      · rw [h.proceed_eq]
        exact .stop h
      · exact absurd rfl hm

end Moment

/-! ## The log of execution -/

variable [Listener L]

/-- Execution comes to a moment, with the announcements made on the way. -/
inductive Config.Leads (c : Config L) : List (Announcement L) → Interp L → Moment → Prop where
  | refl : Leads c [] c.state c.moment
  | announce {log : List (Announcement L)} {s s' : Interp L} {m m' : Moment} {n : Notice}
      (path : Leads c log s m) (move : m.Announces s n m') (ok : s.announce n = .ok s') :
      Leads c (log ++ [m.announcement s n]) s' m'
  | go {log : List (Announcement L)} {s s' : Interp L} {m m' : Moment} (path : Leads c log s m)
      (move : m.Goes s s' m') : Leads c log s' m'

/-- Execution halts at a moment, by itself or because a listener stops it. -/
inductive Config.Halts (c : Config L) : List (Announcement L) → Moment → Halt L → Prop where
  | stopped {log : List (Announcement L)} {s : Interp L} {m : Moment} {h : Halt L}
      (path : c.Leads log s m) (move : m.Stops s h) : Halts c log m h
  | refused {log : List (Announcement L)} {s : Interp L} {m m' : Moment} {n : Notice} {h : Halt L}
      (path : c.Leads log s m) (move : m.Announces s n m') (error : s.announce n = .error h) :
      Halts c (log ++ [m.announcement s n]) m h

/-- Execution makes its progress with these announcements. -/
def Config.Arrives (c : Config L) (log : List (Announcement L)) : Progress L → Prop
  | .running d => c.Leads log d.state d.moment
  | .finished s => ∃ traced, c.Leads log s (.next [] traced [])
  | .halted h => ∃ m, c.Halts log m h

namespace Config

variable {c : Config L} {log : List (Announcement L)} {s : Interp L} {m : Moment}

/-- A step begins with a move of execution by itself, or finds the program at its end. -/
theorem step_cases (d : Config L) :
    (∃ s' m', d.moment.Goes d.state s' m' ∧ d.step = m'.resume s') ∨
      (∃ traced, d.moment = .next [] traced []) ∧ d.step = .finished d.state := by
  obtain ⟨s, rest, traced, loops⟩ := d
  cases rest with
  | nil =>
    cases loops with
    | nil => exact .inr ⟨⟨traced, rfl⟩, rfl⟩
    | cons l outer => exact .inl ⟨_, _, .again, rfl⟩
  | cons n rest => exact .inl ⟨_, _, .start, rfl⟩

/-- From a moment on, execution makes the progress of the rest of the step. -/
theorem Leads.exists_arrives {r : Progress L} (path : c.Leads log s m) (h : m.Resumes s r) :
    ∃ log', c.Arrives log' r := by
  induction h generalizing log with
  | next => exact ⟨log, path⟩
  | announce move ok later ih => exact ih (path.announce move ok)
  | refuse move error => exact ⟨_, _, .refused path move error⟩
  | go within move later ih => exact ih (path.go move)
  | stop move => exact ⟨log, _, .stopped path move⟩

/-- One more step is taken from where execution has come to. -/
theorem advance_succ {n : Nat} {d : Config L} (h : c.advance n = .running d) :
    c.advance (n + 1) = d.step := by
  induction n generalizing c with
  | zero =>
    cases h
    rw [advance]
    cases d.step <;> rfl
  | succ n ih =>
    rw [advance] at h ⊢
    cases hs : c.step with
    | running e =>
      rw [hs] at h
      exact ih h
    | finished t => simp [hs] at h
    | halted halt => simp [hs] at h

/-- Either the next step is taken from where execution has come to, or execution is over there. -/
theorem advance_succ_cases (c : Config L) (n : Nat) :
    (∃ d, c.advance n = .running d ∧ c.advance (n + 1) = d.step) ∨
      (c.advance n).Settled ∧ c.advance (n + 1) = c.advance n := by
  cases h : c.advance n with
  | running d => exact .inl ⟨d, rfl, advance_succ h⟩
  | finished | halted => exact .inr ⟨trivial, (advance_stable (by rw [h]; trivial) 1).trans h⟩

/-- Whatever number of steps is taken, execution goes through moments. -/
theorem exists_arrives (c : Config L) (n : Nat) : ∃ log, c.Arrives log (c.advance n) := by
  induction n with
  | zero => exact ⟨[], .refl⟩
  | succ n ih =>
    obtain ⟨log, h⟩ := ih
    rcases c.advance_succ_cases n with ⟨d, hd, hnext⟩ | ⟨-, hnext⟩
    · rw [hd] at h
      rw [hnext]
      have path : c.Leads log d.state d.moment := h
      rcases d.step_cases with ⟨s', m', move, hstep⟩ | ⟨⟨traced, hend⟩, hstep⟩
      · rw [hstep]
        exact (path.go move).exists_arrives (m'.resumes s')
      · rw [hstep]
        exact ⟨log, traced, hend ▸ path⟩
    · rw [hnext]
      exact ⟨log, h⟩

/-- Between two statements the next move begins a step; otherwise it belongs to the step under
way. -/
private theorem exists_advance_proceed (h : ∃ n, c.advance n = m.resume s) :
    ∃ n, c.advance n = m.proceed s := by
  obtain ⟨n, h⟩ := h
  by_cases hm : m.distance = 0
  · cases m with
    | next rest traced loops => exact ⟨n + 1, advance_succ h⟩
    | _ => simp [Moment.distance] at hm
  · exact ⟨n, h.trans (Moment.proceed_eq_resume hm).symm⟩

/-- Every moment that execution comes to belongs to some step. -/
theorem Leads.exists_advance (path : c.Leads log s m) : ∃ n, c.advance n = m.resume s := by
  induction path with
  | refl => exact ⟨0, rfl⟩
  | announce path move ok ih =>
    obtain ⟨n, h⟩ := exists_advance_proceed ih
    refine ⟨n, ?_⟩
    rw [h, move.proceed_eq, ok]
  | go path move ih =>
    obtain ⟨n, h⟩ := exists_advance_proceed ih
    refine ⟨n, ?_⟩
    rw [h, move.proceed_eq]

/-- Execution that halts at a moment does so after a number of steps. -/
theorem Halts.exists_advance {halt : Halt L} (h : c.Halts log m halt) :
    ∃ n, c.advance n = .halted halt := by
  cases h with
  | stopped path move =>
    obtain ⟨n, h⟩ := exists_advance_proceed path.exists_advance
    refine ⟨n, ?_⟩
    rw [h, move.proceed_eq]
  | refused path move error =>
    obtain ⟨n, h⟩ := exists_advance_proceed path.exists_advance
    refine ⟨n, ?_⟩
    rw [h, move.proceed_eq, error]

end Config

end TapeLang
