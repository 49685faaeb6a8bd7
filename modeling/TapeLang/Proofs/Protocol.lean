import TapeLang.Proofs.CallStack
import TapeLang.Proofs.Observers
import TapeLang.Proofs.Reading

/-!
# The events of a run

Where each event has one listener, and none of them takes an action, the events heard follow the
structure of the program. A statement that takes effect at once is heard to start and to end. A loop
that is entered is heard to start and to be entered, then its body goes round at least once, and it
is heard to be left and to end. A run that fails is heard up to the start of the statement that
fails, and then its fault is heard.
-/

namespace TapeLang

variable {L : Type}

/-- The events of statements that are executed to their end. -/
inductive Protocol : List Node → List Notice → Prop where
  | nil : Protocol [] []
  /-- An operation, or a loop that is passed over. -/
  | single {n : Node} {rest : List Node} {events : List Notice} (later : Protocol rest events) :
      Protocol (n :: rest) (.before n :: .after n :: events)
  /-- A loop that is entered, with the events of each pass over its body. -/
  | loop {place : Location} {body rest : List Node} {rounds : List (List Notice)}
      {events : List Notice} (entered : rounds ≠ []) (each : ∀ round ∈ rounds, Protocol body round)
      (later : Protocol rest events) :
      Protocol (.loop place body :: rest)
        (.before (.loop place body) :: .entered (.loop place body) ::
          (rounds.flatten ++ .left (.loop place body) :: .after (.loop place body) :: events))

/-- Passing over every loop completes any list of statements. -/
theorem exists_protocol (nodes : List Node) : ∃ events, Protocol nodes events := by
  induction nodes with
  | nil => exact ⟨[], .nil⟩
  | cons n rest ih =>
    obtain ⟨events, later⟩ := ih
    exact ⟨_, .single later⟩

/-! ## What is still to come -/

/-- The events that complete the passes under way: those of the statements that are left of the pass
at hand, then for each active loop any number of further passes, its end, and what follows it. -/
inductive Completes : List ActiveLoop → List Node → List Notice → Prop where
  | top {rest : List Node} {events : List Notice} (pass : Protocol rest events) :
      Completes [] rest events
  | loop {l : ActiveLoop} {outer : List ActiveLoop} {rest : List Node}
      {events later : List Notice} {rounds : List (List Notice)} (pass : Protocol rest events)
      (each : ∀ round ∈ rounds, Protocol l.body round) (around : Completes outer l.rest later) :
      Completes (l :: outer) rest
        (events ++ (rounds.flatten ++ .left l.node :: .after l.node :: later))

namespace Completes

variable {loops outer : List ActiveLoop} {l : ActiveLoop} {n : Node} {rest : List Node}
  {more : List Notice}

/-- Whatever passes are under way, something completes them. -/
theorem exists_completes (loops : List ActiveLoop) (rest : List Node) :
    ∃ more, Completes loops rest more := by
  obtain ⟨events, pass⟩ := exists_protocol rest
  induction loops generalizing rest events with
  | nil => exact ⟨events, .top pass⟩
  | cons l outer ih =>
    obtain ⟨events', pass'⟩ := exists_protocol l.rest
    obtain ⟨later, around⟩ := ih l.rest events' pass'
    exact ⟨_, .loop pass (List.forall_mem_nil _) around⟩

/-- What stands before the rest of a pass stands before all that is to come. -/
theorem cons (past : List Notice)
    (hpast : ∀ events, Protocol rest events → Protocol (n :: rest) (past ++ events))
    (h : Completes loops rest more) : Completes loops (n :: rest) (past ++ more) := by
  cases h with
  | top pass => exact .top (hpast _ pass)
  | loop pass each around =>
    rw [← List.append_assoc]
    exact .loop (hpast _ pass) each around

theorem single (h : Completes loops rest more) :
    Completes loops (n :: rest) (.before n :: .after n :: more) :=
  cons [.before n, .after n] (fun _ pass => .single pass) h

/-- Once a loop is entered, a pass over its body and what follows complete the loop. -/
theorem enter {place : Location} {body : List Node} {traced : Bool}
    (h : Completes (⟨place, body, rest, traced⟩ :: loops) body more) :
    Completes loops (.loop place body :: rest)
      (.before (.loop place body) :: .entered (.loop place body) :: more) := by
  cases h with
  | @loop _ _ _ events later rounds pass each around =>
    have hround : ∀ round ∈ events :: rounds, Protocol body round :=
      List.forall_mem_cons.2 ⟨pass, each⟩
    have hloop : ∀ tail, Protocol rest tail → Protocol (.loop place body :: rest)
        ((.before (.loop place body) :: .entered (.loop place body) ::
          ((events :: rounds).flatten ++
            [.left (.loop place body), .after (.loop place body)])) ++ tail) := by
      intro tail htail
      simpa using Protocol.loop (List.cons_ne_nil events rounds) hround htail
    simpa [ActiveLoop.node] using Completes.cons _ hloop around

/-- At the end of a pass, one more pass may be part of what is to come. -/
theorem again (h : Completes (l :: outer) l.body more) : Completes (l :: outer) [] more := by
  cases h with
  | @loop _ _ _ events later rounds pass each around =>
    have hround : ∀ round ∈ events :: rounds, Protocol l.body round :=
      List.forall_mem_cons.2 ⟨pass, each⟩
    simpa using Completes.loop .nil hround around

/-- At the end of a pass, the loop may be over. -/
theorem leave (h : Completes outer l.rest more) :
    Completes (l :: outer) [] (.left l.node :: .after l.node :: more) :=
  .loop .nil (List.forall_mem_nil _) h

end Completes

/-! ## Events and moments -/

/-- The event that a notice is, if it is no tick. -/
def Notice.event : Notice → List Notice
  | .tick _ => []
  | n => [n]

/-- How many statements have been heard to start. -/
def begun (events : List Notice) : Nat :=
  events.countP fun n => n.signal = .event .beforeInstruction

/-- A notice counts as the start of a statement when listeners of that event hear it. -/
theorem begun_event (n : Notice) :
    begun n.event = if (Trigger.on .beforeInstruction).hears n.signal then 1 else 0 := by
  cases n with
  | bare e => cases e <;> rfl
  | _ => rfl

theorem begun_append (events later : List Notice) :
    begun (events ++ later) = begun events + begun later := List.countP_append

/-- The events that may follow a moment, if statements are executed to the end of the program. -/
def Moment.Awaits (s : Interp L) : Moment → List Notice → Prop
  | .next rest _ loops, more => Completes loops rest more
  | .before n rest _ loops, more => Completes loops (n :: rest) more
  | .tick n rest _ loops, more | .effect n rest _ loops, more =>
    Completes loops (n :: rest) (.before n :: more)
  | .after n rest _ loops, more => ∃ later, more = .after n :: later ∧ Completes loops rest later
  | .entering l outer, more =>
    ∃ later, more = .entered l.node :: later ∧ Completes (l :: outer) l.body later
  | .turning l outer, more => Completes (l :: outer) (if s.cell = 0 then [] else l.body) more
  | .leaving l outer, more =>
    ∃ later, more = .left l.node :: .after l.node :: later ∧ Completes outer l.rest later
  | .left l outer, more => ∃ later, more = .after l.node :: later ∧ Completes outer l.rest later

/-- What brought execution to a moment: the start of a statement was the last event before it takes
effect, and a loop is entered when its cell is not zero. -/
def Moment.Because (s : Interp L) (events : List Notice) : Moment → Prop
  | .tick n _ _ _ | .effect n _ _ _ => ∃ earlier, events = earlier ++ [.before n]
  | .entering _ _ => s.cell ≠ 0
  | _ => True

namespace Moment

variable {s s' : Interp L} {m m' : Moment} {n : Notice} {events more : List Notice}

/-- An announcement is the first of the events that may follow the moment at which it is made. -/
theorem Announces.awaits (move : Announces s m n m') (hb : m.Because s events)
    (hcell : s'.cell = s.cell) (h : m'.Awaits s' more) : m.Awaits s (n.event ++ more) := by
  cases move with
  | before | tick => exact h
  | after => exact ⟨more, rfl, h⟩
  | @entered l outer =>
    -- listeners that only listen cannot keep an entered loop from its first pass
    have hnonzero : s'.cell ≠ 0 := hcell ▸ hb
    rw [Awaits, if_neg hnonzero] at h
    exact ⟨more, rfl, h⟩
  | left =>
    obtain ⟨later, rfl, h⟩ := h
    exact ⟨later, rfl, h⟩

/-- What execution does by itself is announced later, or is no event. -/
theorem Goes.awaits (move : Goes s m s' m') (ht : ∀ traced ∈ m.passes, traced = true)
    (h : m'.Awaits s' more) : m.Awaits s more := by
  cases move with
  | start => exact h
  | again =>
    -- whether the pass that has ended was the last one, the cell tells before anyone hears of it
    by_cases hz : s.cell = 0
    · rw [Awaits, if_pos hz] at h
      exact h
    · rw [Awaits, if_neg hz] at h
      exact h.again
  | before | tick | after => exact absurd (ht false List.mem_cons_self) Bool.false_ne_true
  | operate ok =>
    obtain ⟨later, rfl, h⟩ := h
    exact h.single
  | skip zero =>
    obtain ⟨later, rfl, h⟩ := h
    exact h.single
  | enter nonzero shallow =>
    obtain ⟨later, rfl, h⟩ := h
    exact h.enter
  | turn nonzero =>
    rw [Awaits, if_neg nonzero]
    exact h
  | done zero =>
    obtain ⟨later, rfl, h⟩ := h
    rw [Awaits, if_pos zero]
    exact h.leave
  | leave => exact h

/-- An announcement leaves its event behind as the last one. -/
theorem Announces.because (move : Announces s m n m') (hb : m.Because s events) :
    m'.Because s' (events ++ n.event) := by
  cases move with
  | before => exact ⟨events, rfl⟩
  | tick => exact (List.append_nil events).symm ▸ hb
  | after | entered | left => trivial

theorem Goes.because (move : Goes s m s' m') (ht : ∀ traced ∈ m.passes, traced = true)
    (hb : m.Because s events) : m'.Because s' events := by
  cases move with
  | before | tick => exact absurd (ht false List.mem_cons_self) Bool.false_ne_true
  | enter nonzero shallow => exact nonzero
  | _ => trivial

/-- A statement that stops execution has what it reports placed at itself. -/
theorem Stops.reported_location {finish : Location} {tree : List Node} {h : Halt L} {f : Fault}
    (hs : s.sink.Ordinary) (move : m.Stops s h) (hm : m.Framed finish tree s)
    (hf : h.reported = some f) : f.location = h.state.position := by
  obtain ⟨stop, t⟩ := h
  cases stop with
  | fault g =>
    cases hf
    rcases move.location_eq hm with hplace | ⟨i, hrefusal⟩
    · exact hplace
    · obtain ⟨e, he⟩ := hs i _ hrefusal
      cases he
  | failure g =>
    cases hf
    rfl
  | exit | interrupt | quit => cases hf

end Moment

/-! ## Listeners of every event -/

/-- What triggers the listeners, in the order of subscription. -/
def Hooks.triggers (hooks : Hooks L) : List Trigger := hooks.toList.map Subscription.trigger

/-- How many listeners, from an index on, hear a notice. -/
def Hooks.hearers (hooks : Hooks L) (n : Notice) (i : Nat) : Nat :=
  (hooks.triggers.drop i).countP fun trigger => trigger.hears n.signal

namespace Hooks

variable {hooks : Hooks L} {n : Notice} {i : Nat}

/-- Counting a call changes no trigger. -/
theorem triggers_count (hooks : Hooks L) (i : Nat) : (hooks.count i).triggers = hooks.triggers := by
  apply List.ext_getElem?
  intro k
  simp only [triggers, Hooks.count, List.getElem?_map, Array.getElem?_toList,
    Array.getElem?_modify]
  split
  · rw [Option.map_map]
    rfl
  · rfl

theorem hearers_of_size_le (h : hooks.size ≤ i) : hooks.hearers n i = 0 := by
  rw [hearers, List.drop_eq_nil_of_le (by simpa [triggers] using h)]
  rfl

/-- The listener at an index is one of those who may hear the notice. -/
theorem hearers_of_lt (h : i < hooks.size) :
    hooks.hearers n i =
      hooks.hearers n (i + 1) + if hooks[i].trigger.hears n.signal then 1 else 0 := by
  have hdrop : hooks.triggers.drop i = hooks[i].trigger :: hooks.triggers.drop (i + 1) := by
    rw [List.drop_eq_getElem_cons (by simpa [triggers] using h)]
    simp [triggers]
  rw [hearers, hdrop, List.countP_cons]
  rfl

end Hooks

/-- The notices that listeners have been called for, in order. -/
def Interp.notices (s : Interp L) : List Notice := s.journal.toList.map Call.notice

theorem Interp.Alike.cell_eq {s t : Interp L} (h : s.Alike t) : s.cell = t.cell := by
  rw [cell, cell, work, work, h.tape, h.bench]

variable [Listener L]

/-- Each event has one listener, and none takes an action. -/
structure Hooks.Watching (hooks : Hooks L) : Prop where
  observing : hooks.Observing
  triggers : hooks.triggers.Perm (Event.all.map Trigger.on)

/-- Each event is heard once, and no tick is heard. -/
theorem Hooks.Watching.replicate_hearers {hooks : Hooks L} (h : hooks.Watching) (n : Notice) :
    List.replicate (hooks.hearers n 0) n = n.event := by
  rw [Hooks.hearers, List.drop_zero, h.triggers.countP_eq]
  cases n with
  | bare e => cases e <;> rfl
  | _ => rfl

/-- In a round, each listener that hears the notice is called once, and all stay subscribed. -/
theorem Interp.roundFrom_notices {s t : Interp L} {n : Notice} {i : Nat}
    (h : s.hooks.Observing) (hr : s.roundFrom n i = .ok t) :
    t.hooks.triggers = s.hooks.triggers ∧
      t.notices = s.notices ++ List.replicate (s.hooks.hearers n i) n := by
  fun_induction Interp.roundFrom s n i with
  | case1 s i hi hhears s' hcalled ih =>
    rw [Interp.callListener, h _ (Array.getElem_mem hi), Interp.performAll] at hcalled
    obtain rfl := Except.ok.inj hcalled
    have htriggers : (s.hooks.count i).triggers = s.hooks.triggers := Hooks.triggers_count s.hooks i
    have hhearers : (s.hooks.count i).hearers n (i + 1) = s.hooks.hearers n (i + 1) := by
      rw [Hooks.hearers, htriggers, Hooks.hearers]
    have hnotices : (s.noteCall i s.hooks[i].listener n).notices = s.notices ++ [n] := by
      simp [Interp.notices, Interp.noteCall]
    obtain ⟨hkept, hheard⟩ := ih (h.count i) hr
    refine ⟨hkept.trans htriggers, ?_⟩
    calc t.notices
        = (s.notices ++ [n]) ++ List.replicate (s.hooks.hearers n (i + 1)) n := by
          rw [← hnotices, ← hhearers]
          exact hheard
      _ = s.notices ++ List.replicate (s.hooks.hearers n i) n := by
          rw [Hooks.hearers_of_lt hi, if_pos hhears, List.replicate_succ, List.append_assoc,
            List.singleton_append]
  | case2 => cases hr
  | case3 s i hi hhears ih =>
    rw [Hooks.hearers_of_lt hi, if_neg hhears]
    exact ih h hr
  | case4 s i hi =>
    cases hr
    rw [Hooks.hearers_of_size_le (Nat.le_of_not_lt hi)]
    exact ⟨rfl, (List.append_nil _).symm⟩

/-- An announcement has been heard, and that is all that has happened. -/
structure Interp.Overheard (s : Interp L) (n : Notice) (t : Interp L) : Prop where
  alike : t.Alike s
  watching : t.hooks.Watching
  notices : t.notices = s.notices ++ n.event

/-- Every announcement succeeds, and is heard. -/
theorem Hooks.Watching.announce {s : Interp L} (h : s.hooks.Watching) (n : Notice) :
    ∃ t, s.announce n = .ok t ∧ s.Overheard n t := by
  obtain ⟨t, hr, ht⟩ := (Interp.unheard_without_hooks s h.observing s.journal).roundFrom n 0
  obtain ⟨htriggers, hnotices⟩ := Interp.roundFrom_notices h.observing hr
  rw [h.replicate_hearers n] at hnotices
  refine ⟨t, ?_, ⟨ht.source, ht.file, ht.steps, ht.stack, ht.tape, ht.bench, ht.program, ht.sink,
    ht.reports⟩, ⟨ht.observing, htriggers ▸ h.triggers⟩, hnotices⟩
  rw [Interp.announce, Interp.round, hr]

/-! ## Execution that is watched -/

/-- Somebody listens to instructions. -/
theorem Hooks.Watching.idle_eq {hooks : Hooks L} (h : hooks.Watching) : hooks.idle = false := by
  have hmem : Trigger.on .beforeInstruction ∈ hooks.triggers :=
    h.triggers.mem_iff.2 (by decide)
  obtain ⟨sub, hsub, htrigger⟩ := List.mem_map.1 hmem
  have hper : sub.trigger.perInstruction = true := by
    rw [htrigger]
    rfl
  rw [Hooks.idle, Array.any_eq_true'.2 ⟨sub, Array.mem_toList_iff.1 hsub, hper⟩]
  rfl

/-- Execution has come to a moment, and these events have been heard since it began. -/
structure Config.Watches (c : Config L) (events : List Notice) (s : Interp L) (m : Moment) :
    Prop where
  watching : s.hooks.Watching
  passes : ∀ traced ∈ m.passes, traced = true
  notices : s.notices = c.state.notices ++ events
  steps : s.steps = c.state.steps + begun events + m.due (.on .beforeInstruction)
  because : m.Because s events
  /-- Whatever completes the run from here, completes the events of the program. -/
  completes : ∀ more, m.Awaits s more → Protocol c.rest (events ++ more)

namespace Config

variable {c : Config L} {s s' : Interp L} {m m' : Moment} {n : Notice} {events : List Notice}

theorem Watches.announce (h : c.Watches events s m) (move : m.Announces s n m')
    (heard : s.Overheard n s') : c.Watches (events ++ n.event) s' m' where
  watching := heard.watching
  passes := move.passes_eq ▸ h.passes
  notices := by rw [heard.notices, h.notices, List.append_assoc]
  steps := by
    have hdue := move.due_eq (.inl rfl)
    rw [heard.alike.steps, h.steps, begun_append, begun_event, hdue]
    omega
  because := move.because h.because
  completes := by
    intro more hmore
    rw [List.append_assoc]
    exact h.completes _ (move.awaits h.because heard.alike.cell_eq hmore)

theorem Watches.go (h : c.Watches events s m) (move : m.Goes s s' m') :
    c.Watches events s' m' where
  watching := by
    rw [move.hooks_journal.1]
    exact h.watching
  passes := move.traced h.watching.idle_eq h.passes
  notices := by
    rw [Interp.notices, move.hooks_journal.2]
    exact h.notices
  steps := by
    have hdue := move.due_eq (.on .beforeInstruction) h.passes
    rw [move.steps_eq, h.steps, hdue]
    omega
  because := move.because h.passes h.because
  completes := fun more hmore => h.completes more (move.awaits h.passes hmore)

/-- Wherever execution comes to, the events heard on the way are the beginning of those of the
program. -/
theorem Leads.exists_watches {log : List (Announcement L)} (path : c.Leads log s m)
    (hc : c.Watches [] c.state c.moment) : ∃ events, c.Watches events s m := by
  induction path with
  | refl => exact ⟨[], hc⟩
  | announce path move ok ih =>
    obtain ⟨events, h⟩ := ih
    obtain ⟨t, ht, heard⟩ := h.watching.announce _
    obtain rfl := Except.ok.inj (ok.symm.trans ht)
    exact ⟨_, h.announce move heard⟩
  | go path move ih =>
    obtain ⟨events, h⟩ := ih
    exact ⟨events, h.go move⟩

/-- Execution halts at a statement only, never because of a listener. -/
theorem Halts.exists_stops {log : List (Announcement L)} {h : Halt L} (path : c.Halts log m h)
    (hc : c.Watches [] c.state c.moment) : ∃ s, c.Leads log s m ∧ m.Stops s h := by
  cases path with
  | @stopped log s m h path move => exact ⟨s, path, move⟩
  | refused path move error =>
    obtain ⟨events, hwatches⟩ := path.exists_watches hc
    obtain ⟨t, hok, -⟩ := hwatches.watching.announce _
    cases hok.symm.trans error

end Config

/-! ## Runs that are watched -/

namespace Interp

/-- The events heard in a run go with the way the run ends. -/
inductive Follows (s : Interp L) (tree : List Node) : Verdict L → Prop where
  /-- All events of the program are heard, between its start and its end. -/
  | finished {t : Interp L} {events : List Notice} (protocol : Protocol tree events)
      (heard : t.notices = s.notices ++ .started :: (events ++ [.ended]))
      (steps : t.steps = s.steps + begun events) : Follows s tree (.finished t)
  /-- The events of the program break off after the start of the statement that fails, and its fault
  is heard. -/
  | failed {t : Interp L} {f : Fault} {n : Node} {events later : List Notice}
      (protocol : Protocol tree (events ++ .before n :: .after n :: later))
      (heard : t.notices = s.notices ++ .started :: (events ++ [.before n, .failed f]))
      (steps : t.steps = s.steps + begun (events ++ [.before n]))
      (reached : t.stack.head?.bind Frame.current = some n) (place : f.location = n.location) :
      Follows s tree (.stopped ⟨.fault f, t⟩)

variable {s t : Interp L} {p : Program} {tape : Tape}

/-- The program begins as it was read, and its start has been heard. -/
theorem begin_watches (hw : s.hooks.Watching) {c : Config L} (start : s.begin p tape = .ok c) :
    c.rest = p.statements ∧ c.state.notices = s.notices ++ [.started] ∧
      c.state.steps = s.steps ∧ c.Watches [] c.state c.moment := by
  obtain ⟨hstarted, hc⟩ := begin_eq_ok start
  have hload : (s.load p tape).hooks.Watching := hw
  obtain ⟨t, ht, heard⟩ := hload.announce .started
  obtain rfl := Except.ok.inj (hstarted.symm.trans ht)
  have hrest : c.rest = c.state.program := by rw [hc, Config.enter]
  have htraced : c.traced = true := by
    rw [hc, Config.enter, heard.watching.idle_eq]
    rfl
  have hloops : c.loops = [] := by rw [hc, Config.enter]
  refine ⟨hrest.trans heard.alike.program, heard.notices, heard.alike.steps, heard.watching, ?_,
    (List.append_nil _).symm, rfl, trivial, ?_⟩
  · show ∀ traced ∈ c.traced :: c.loops.map ActiveLoop.traced, traced = true
    rw [htraced, hloops]
    exact List.forall_mem_singleton.2 rfl
  · intro more hmore
    change Completes c.loops c.rest more at hmore
    rw [hloops] at hmore
    cases hmore with
    | top pass => exact pass

/-- At the end of the program nothing is left to come, so the events heard are those of the
program. -/
theorem follows_concluded (hw : s.hooks.Watching) {c : Config L} {log : List (Announcement L)}
    {traced : Bool} (start : s.begin p tape = .ok c) (path : c.Leads log t (.next [] traced [])) :
    s.Follows p.statements t.conclude := by
  obtain ⟨hrest, hnotices, hsteps, hc⟩ := begin_watches hw start
  obtain ⟨events, h⟩ := path.exists_watches hc
  obtain ⟨u, hu, heard⟩ := h.watching.announce .ended
  have hprotocol : Protocol p.statements events := by
    rw [← hrest, ← List.append_nil events]
    exact h.completes [] (.top .nil)
  rw [conclude, hu]
  refine .finished hprotocol ?_ ?_
  · show u.notices = _
    rw [heard.notices, h.notices, hnotices]
    simp [Notice.event]
  · show u.steps = _
    rw [heard.alike.steps, h.steps, hsteps]
    rfl

/-- Where a statement stops execution, its start was the last event, and its end might have
followed. -/
theorem follows_reported (hw : s.hooks.Watching) (hk : t.sink.Ordinary) {c : Config L}
    {log : List (Announcement L)} {m : Moment} {h : Halt L} {f : Fault}
    (start : s.begin p tape = .ok c) (path : c.Leads log t m) (move : m.Stops t h)
    (hf : h.reported = some f) :
    s.Follows p.statements (.stopped (report h)) := by
  obtain ⟨hrest, hnotices, hsteps, hc⟩ := begin_watches hw start
  obtain ⟨past, hpast⟩ := path.exists_watches hc
  have hframed := (path.framed (begin_framed start)).2
  have hplace := move.reported_location hk hframed hf
  obtain ⟨sink, -, hstate⟩ := move.exists_state_eq
  rw [report_of_reported hf]
  rw [hstate] at hplace ⊢
  have hwatching : Hooks.Watching { t with sink }.hooks := hpast.watching
  obtain ⟨u, hu, heard⟩ := hwatching.announce (.failed f)
  rw [hu]
  have hstatement : ∃ n rest traced loops, m = .effect n rest traced loops := by
    cases move <;> exact ⟨_, _, _, _, rfl⟩
  obtain ⟨n, rest, traced, loops, rfl⟩ := hstatement
  obtain ⟨events, rfl⟩ := hpast.because
  obtain ⟨later, hlater⟩ := Completes.exists_completes loops rest
  obtain ⟨current, pass, ⟨hstack, -, -, hcurrent⟩, -⟩ := hframed
  rw [hcurrent n rfl] at hstack
  have hprotocol : Protocol p.statements (events ++ .before n :: .after n :: later) := by
    have hmore := hpast.completes (.after n :: later) hlater.single
    rw [hrest, List.append_assoc] at hmore
    exact hmore
  have hheard : u.notices = s.notices ++ .started :: (events ++ [.before n, .failed f]) := by
    have hpassed : Interp.notices { t with sink } = t.notices := rfl
    rw [heard.notices, hpassed, hpast.notices, hnotices]
    simp [Notice.event]
  have hcount : u.steps = s.steps + begun (events ++ [.before n]) := by
    rw [heard.alike.steps, hpast.steps, hsteps]
    rfl
  have hreached : u.stack.head?.bind Frame.current = some n := by
    rw [heard.alike.stack, hstack]
    cases loops <;> rfl
  refine .failed hprotocol hheard hcount hreached ?_
  rw [hplace]
  exact position_of_callStack hstack

/-- With one listener for each event and no action taken, the events heard in a run follow the
structure of the program: to its end, or up to the statement that fails. The sink may fail at any
write. -/
theorem run_follows_protocol (s : Interp L) (hw : s.hooks.Watching) (hk : s.sink.Ordinary)
    (tape : Tape) {p : Program} (hp : s.parse = .ok p) {v : Verdict L} (hv : s.EndsIn tape v) :
    s.Follows p.statements v := by
  have hsink {c : Config L} {log : List (Announcement L)} {t : Interp L} {m : Moment}
      (start : s.begin p tape = .ok c) (path : c.Leads log t m) : t.sink.Ordinary :=
    hk.of_refusal_eq (path.refusal_eq.trans (begin_refusal_eq start))
  obtain ⟨hsettled, fuel, rfl⟩ := hv
  obtain ⟨log, ht⟩ := exists_tells hp tape fuel
  generalize s.run fuel tape = v at hsettled ht
  cases ht with
  | unstarted start =>
    have hload : (s.load p tape).hooks.Watching := hw
    obtain ⟨t, hok, -⟩ := hload.announce .started
    cases hok.symm.trans (begin_eq_error start)
  | unfinished => exact hsettled.elim
  | concluded start path => exact follows_concluded hw start path
  | passed start path signal =>
    obtain ⟨-, -, -, hc⟩ := begin_watches hw start
    obtain ⟨t, hleads, move⟩ := path.exists_stops hc
    obtain ⟨f, hf⟩ := move.exists_reported (hsink start hleads)
    cases signal.symm.trans hf
  | reported start path fault =>
    obtain ⟨-, -, -, hc⟩ := begin_watches hw start
    obtain ⟨t, hleads, move⟩ := path.exists_stops hc
    exact follows_reported hw (hsink start hleads) start hleads move fault

open Evaluation in
/-- In `+[,]` the first pass over the body stops at the `,`: the loop is heard to be entered, and
not to be left. -/
theorem run_follows_protocol_into_loop :
    let s : Interp Script :=
      { source := "+[,]", file := "a"
        hooks := (Event.all.map fun e => ⟨.on e, .mk e.name none [], 0⟩).toArray }
    let tape : Tape := ⟨2, Vector.replicate 2 0, 1⟩
    s.hooks.Watching ∧ s.sink.Ordinary ∧ ∃ p f t, s.parse = .ok p ∧
      s.EndsIn tape (.stopped ⟨.fault f, t⟩) ∧ f.location = some ⟨"a", 1, 3, "+[,]"⟩ ∧
      t.steps = 3 ∧ t.notices.map Notice.signal =
        [.event .programStart, .event .beforeInstruction, .event .afterInstruction,
          .event .beforeInstruction, .event .loopEnter, .event .beforeInstruction,
          .event .onError] ∧
      s.Follows p.statements (.stopped ⟨.fault f, t⟩) := by
  intro s tape
  have hwatching : s.hooks.Watching := by
    refine ⟨?_, .refl _⟩
    intro sub hsub k n c
    obtain ⟨e, -, rfl⟩ := List.mem_map.1 (List.mem_toArray.1 hsub)
    rfl
  have htokens : Source.ofText "+[,]" "a" =
      ⟨#[⟨.op .increment, 1, 1⟩, ⟨.opening, 1, 2⟩, ⟨.op .input, 1, 3⟩, ⟨.closing, 1, 4⟩,
        ⟨.finish, 1, 5⟩], "a", #["+[,]"]⟩ := rfl
  let body : List Node := [.op .input (some ⟨"a", 1, 3, "+[,]"⟩)]
  let p : Program :=
    ⟨[.op .increment (some ⟨"a", 1, 1, "+[,]"⟩), .loop ⟨"a", 1, 2, "+[,]"⟩ body],
      ⟨"a", 1, 5, "+[,]"⟩⟩
  have hp : s.parse = .ok p := by
    rw [Interp.parse, Program.parse, htokens]
    exact Program.ofSource_eq_ok_iff.2 ⟨by decide,
      .op rfl (.loop rfl (.op rfl (.nil _ _)) rfl (.nil _ _)),
      by simp [p, body, Node.depth, Program.maxNesting], rfl⟩
  have hrun : s.run 3 tape = s.runProgram 3 p tape := by rw [run, hp]
  have hstop : (s.run 3 tape).stop? = some (.fault {
      message := "The ',' operator is not supported.", rule := some "InputReplace",
      location := some ⟨"a", 1, 3, "+[,]"⟩, step := some 3 }) := by
    rw [hrun]
    simp [s, tape, p, body, Event.all, Verdict.stop?]
  have hsteps : (s.run 3 tape).state.steps = 3 := by
    rw [hrun]
    simp [s, tape, p, body, Event.all, Verdict.state]
  have hsignals : (s.run 3 tape).state.notices.map Notice.signal =
      [.event .programStart, .event .beforeInstruction, .event .afterInstruction,
        .event .beforeInstruction, .event .loopEnter, .event .beforeInstruction,
        .event .onError] := by
    rw [hrun]
    simp [s, tape, p, body, Event.all, Verdict.state, notices]
  have hends := endsIn_of_stop? hstop
  have hordinary : s.sink.Ordinary := Sink.open_default.ordinary
  exact ⟨hwatching, hordinary, p, _, _, hp, hends, rfl, hsteps, hsignals,
    run_follows_protocol s hwatching hordinary tape hp hends⟩

end Interp

end TapeLang
