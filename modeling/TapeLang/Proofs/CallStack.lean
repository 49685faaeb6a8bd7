import TapeLang.Proofs.Announcements
import TapeLang.Proofs.Evaluation

/-!
# The call stack and the active loops

The call stack holds the frame of the program and one frame for each active loop. It is the same
throughout an announcement, whatever the listeners do, and it stays as it is when a run stops. The
active loops lie one inside the other in the tree that is executed, so the stack is never deeper
than the tree. A loop is active from the moment when it is announced as entered until it has been
announced as left.
-/

namespace TapeLang

variable {L : Type}

/-- The call stack while loops are active, the innermost frame first. Every frame but the innermost
is at the loop whose frame comes next on the way in. -/
def callStack (finish : Location) (current : Option Node) : List ActiveLoop → List Frame
  | [] => [⟨Interp.topLevel, some finish, current⟩]
  | l :: outer => { Frame.ofLoop l.location with current } :: callStack finish (some l.node) outer

/-- The call stack holds one frame more than there are active loops. -/
theorem length_callStack (finish : Location) (current : Option Node) (loops : List ActiveLoop) :
    (callStack finish current loops).length = loops.length + 1 := by
  induction loops generalizing current with
  | nil => rfl
  | cons l outer ih => rw [callStack, List.length_cons, List.length_cons, ih]

/-- Starting a statement puts the innermost frame at it. -/
theorem Interp.start_stack {s : Interp L} {finish : Location} {current : Option Node}
    {loops : List ActiveLoop} (h : s.stack = callStack finish current loops) (n : Node) :
    (s.start n).stack = callStack finish (some n) loops := by
  cases loops <;> simp [start, reach, h, callStack]

/-- With a statement under way, execution has got to the place of the statement. -/
theorem Interp.position_of_callStack {s : Interp L} {finish : Location} {n : Node}
    {loops : List ActiveLoop} (h : s.stack = callStack finish (some n) loops) :
    s.position = n.location := by
  cases loops <;> simp [position, h, callStack, Frame.position]

/-! ## Active loops in the tree -/

/-- Active loops, the innermost first, lead from the statements of a tree to the list that the
innermost pass goes over. -/
inductive Encloses (tree : List Node) : List ActiveLoop → List Node → Prop where
  | top : Encloses tree [] tree
  | loop {l : ActiveLoop} {outer : List ActiveLoop} {pass : List Node}
      (outside : Encloses tree outer pass) (mem : l.node ∈ pass) (rest : l.rest ⊆ pass) :
      Encloses tree (l :: outer) l.body

/-- A body is less deep than any list that its loop stands in. -/
theorem Node.depth_lt_of_mem {place : Location} {body ns : List Node}
    (h : .loop place body ∈ ns) : depth body < depth ns := by
  induction ns with
  | nil => cases h
  | cons n rest ih =>
    rcases List.mem_cons.1 h with rfl | h
    · rw [depth]
      omega
    · have hrest := ih h
      cases n <;> rw [depth] <;> omega

/-- There are no more active loops than the tree is deep. -/
theorem Encloses.length_add_depth_le {tree pass : List Node} {loops : List ActiveLoop}
    (h : Encloses tree loops pass) : loops.length + Node.depth pass ≤ Node.depth tree := by
  induction h with
  | top => exact Nat.le_of_eq (Nat.zero_add _)
  | loop outside mem rest ih =>
    have hlt := Node.depth_lt_of_mem mem
    rw [List.length_cons]
    omega

/-- The call stack names the active loops, and each frame is at a statement of its own list, the
innermost at the statement in question, if there is one. -/
structure Framed (finish : Location) (tree : List Node) (stack : List Frame)
    (loops : List ActiveLoop) (statement current : Option Node) (pass : List Node) : Prop where
  stack_eq : stack = callStack finish current loops
  encloses : Encloses tree loops pass
  mem_pass : ∀ n, current = some n → n ∈ pass
  current_eq : ∀ n, statement = some n → current = some n

/-- The statements that the pass at hand has still to start. -/
def Moment.rest : Moment → List Node
  | .next rest _ _ | .before _ rest _ _ | .tick _ rest _ _ | .effect _ rest _ _
  | .after _ rest _ _ => rest
  | .entering _ _ | .turning _ _ | .leaving _ _ | .left _ _ => []

/-- At a moment the call stack names the active loops. -/
def Moment.Framed (finish : Location) (tree : List Node) (s : Interp L) (m : Moment) : Prop :=
  ∃ current pass, TapeLang.Framed finish tree s.stack m.loops m.statement current pass ∧
    m.rest ⊆ pass

/-- At an announcement the call stack names the active loops. -/
def Announcement.Framed (finish : Location) (tree : List Node) (a : Announcement L) : Prop :=
  ∃ current pass, TapeLang.Framed finish tree a.state.stack a.loops a.statement current pass

namespace Moment

variable {finish : Location} {tree : List Node} {s s' : Interp L} {m m' : Moment} {n : Notice}

/-- An announcement changes neither the loops nor, until it is over, the statement. -/
theorem Announces.framed (move : Announces s m n m') (h : m.Framed finish tree s)
    (hs : s'.stack = s.stack) : m'.Framed finish tree s' := by
  obtain ⟨current, pass, ⟨hstack, hencloses, hmem, hcurrent⟩, hrest⟩ := h
  rw [← hs] at hstack
  cases move with
  | before | tick => exact ⟨current, pass, ⟨hstack, hencloses, hmem, hcurrent⟩, hrest⟩
  | after => exact ⟨current, pass, ⟨hstack, hencloses, hmem, nofun⟩, hrest⟩
  | entered | left => exact ⟨current, pass, ⟨hstack, hencloses, hmem, nofun⟩, List.nil_subset _⟩

/-- A move of execution by itself keeps the call stack in step with the active loops. -/
theorem Goes.framed (move : Goes s m s' m') (h : m.Framed finish tree s) :
    m'.Framed finish tree s' := by
  obtain ⟨current, pass, ⟨hstack, hencloses, hmem, hcurrent⟩, hrest⟩ := h
  cases move with
  | @start n rest traced loops =>
    obtain ⟨hn, hrest⟩ := List.cons_subset.1 hrest
    refine ⟨some n, pass, ⟨Interp.start_stack hstack n, hencloses, ?_, fun _ => id⟩, hrest⟩
    rintro _ ⟨⟩
    exact hn
  | again => exact ⟨current, pass, ⟨hstack, hencloses, hmem, nofun⟩, hrest⟩
  | before | tick => exact ⟨current, pass, ⟨hstack, hencloses, hmem, hcurrent⟩, hrest⟩
  | after => exact ⟨current, pass, ⟨hstack, hencloses, hmem, nofun⟩, hrest⟩
  | operate ok =>
    obtain ⟨tape, bench, sink, -, rfl⟩ := Interp.operate_ok ok
    exact ⟨current, pass, ⟨hstack, hencloses, hmem, hcurrent⟩, hrest⟩
  | skip => exact ⟨current, pass, ⟨hstack, hencloses, hmem, hcurrent⟩, hrest⟩
  | @enter place body rest traced loops =>
    have hloop : current = some (.loop place body) := hcurrent _ rfl
    refine ⟨none, body, ⟨?_, .loop hencloses (hmem _ hloop) hrest, nofun, nofun⟩,
      List.nil_subset _⟩
    rw [Interp.push, hstack, hloop]
    rfl
  | @turn l outer =>
    cases hencloses with
    | loop outside mem hafter =>
      exact ⟨current, l.body, ⟨hstack, .loop outside mem hafter, hmem, nofun⟩, List.Subset.refl _⟩
  | done => exact ⟨current, pass, ⟨hstack, hencloses, hmem, nofun⟩, List.nil_subset _⟩
  | @leave l outer =>
    cases hencloses with
    | @loop _ _ pass outside mem hafter =>
      refine ⟨some l.node, pass, ⟨?_, outside, ?_, fun _ => id⟩, hafter⟩
      · rw [Interp.pop, hstack]
        rfl
      · rintro _ ⟨⟩
        exact mem

/-- A statement that stops execution leaves the call stack as it is. -/
theorem Stops.stack_eq {h : Halt L} (move : Stops s m h) : h.state.stack = s.stack := by
  obtain ⟨sink, -, hstate⟩ := move.exists_state_eq
  rw [hstate]

/-- A statement that stops execution with a fault places the fault where execution has got to,
unless it is a fault of the sink. -/
theorem Stops.location_eq {t : Interp L} {f : Fault} (move : Stops s m ⟨.fault f, t⟩)
    (h : m.Framed finish tree s) :
    f.location = t.position ∨ ∃ i, s.sink.refusal i = some (.fault f) := by
  have hstate : t.stack = s.stack := move.stack_eq
  obtain ⟨current, pass, ⟨hstack, -, -, hcurrent⟩, -⟩ := h
  have hposition (n : Node) (hn : m.statement = some n) : t.position = n.location := by
    rw [hcurrent n hn, ← hstate] at hstack
    exact Interp.position_of_callStack hstack
  cases move with
  | @operate o place _ _ _ _ error =>
    rw [hposition (.op o place) rfl]
    rcases Interp.operate_error error with ⟨-, hrefusal, -⟩ | ⟨-, -, f', hstop, -, hplace⟩
    · exact .inr ⟨_, hrefusal⟩
    · obtain rfl := Stop.fault.inj hstop
      exact .inl hplace
  | @bare place =>
    rw [hposition (.bare place) rfl, Node.location]
    exact .inl rfl

end Moment

/-! ## Active loops and announcements -/

/-- The loops that have been announced as entered, and not yet as left, the innermost first. -/
def entered (notices : List Notice) : List Node :=
  notices.foldl (fun active n => match n with
    | .entered loop => loop :: active
    | .left _ => active.tail
    | _ => active) []

/-- The active loops as an announcement finds them: its own loop is active both when it is announced
as entered and when it is announced as left. -/
def activeAt (before : List Notice) (n : Notice) : List Node :=
  match n with
  | .entered loop => loop :: entered before
  | _ => entered before

theorem entered_snoc (notices : List Notice) (n : Notice) :
    entered (notices ++ [n]) = match n with
      | .entered loop => loop :: entered notices
      | .left _ => (entered notices).tail
      | _ => entered notices := by
  rw [entered, List.foldl_append]
  rfl

/-- The statement whose start or end a notice tells of. -/
def Notice.concerns : Notice → Option Node
  | .before n | .after n => some n
  | _ => none

/-- An announcement is in order after those before it: it is made while the loops are active that
have been entered and not left, it is about the statement that it names, and a tick follows the
announcement of the start of its statement. -/
structure Announcement.InOrder (before : List (Announcement L)) (a : Announcement L) : Prop where
  active : (∀ f, a.notice ≠ .failed f) →
    a.loops.map ActiveLoop.node = activeAt (before.map Announcement.notice) a.notice
  about : ∀ n, a.notice.concerns = some n → a.statement = some n
  tick : ∀ count, a.notice = .tick count →
    ∃ b n, before.getLast? = some b ∧ b.notice = .before n ∧ a.statement = some n

/-- Every announcement of a log is in order after those before it. -/
inductive Orderly : List (Announcement L) → Prop where
  | nil : Orderly []
  | snoc {log : List (Announcement L)} {a : Announcement L} (before : Orderly log)
      (order : a.InOrder log) : Orderly (log ++ [a])

/-- The active loops that have been announced as entered and not yet as left. -/
def Moment.announced : Moment → List ActiveLoop
  | .entering _ outer | .left _ outer => outer
  | m => m.loops

/-- What keeps a log in order at a moment. -/
structure Moment.Ordered (log : List (Announcement L)) (m : Moment) : Prop where
  orderly : Orderly log
  announced : m.announced.map ActiveLoop.node = entered (log.map Announcement.notice)
  tick : ∀ n rest loops, m = .tick n rest true loops →
    ∃ b, log.getLast? = some b ∧ b.notice = .before n

namespace Moment

variable {log : List (Announcement L)} {s s' : Interp L} {m m' : Moment} {n : Notice}

/-- What is announced at a moment is in order after the log that has led there. -/
theorem Announces.inOrder (move : Announces s m n m') (h : m.Ordered log) :
    (m.announcement s n).InOrder log := by
  have hannounced := h.announced
  cases move with
  | before => exact ⟨fun _ => hannounced, fun _ h => h, nofun⟩
  | @tick n rest loops =>
    refine ⟨fun _ => hannounced, nofun, fun count _ => ?_⟩
    obtain ⟨b, hlast, hb⟩ := h.tick n rest loops rfl
    exact ⟨b, n, hlast, hb, rfl⟩
  | after => exact ⟨fun _ => hannounced, fun _ h => h, nofun⟩
  | @entered l outer =>
    refine ⟨fun _ => ?_, nofun, nofun⟩
    have hloops : (l :: outer).map ActiveLoop.node = l.node :: outer.map ActiveLoop.node := rfl
    exact hloops.trans (congrArg (l.node :: ·) hannounced)
  | left => exact ⟨fun _ => hannounced, nofun, nofun⟩

/-- A log stays in order with one more announcement. -/
theorem Announces.ordered (move : Announces s m n m') (h : m.Ordered log) :
    m'.Ordered (log ++ [m.announcement s n]) := by
  have hmap : (log ++ [m.announcement s n]).map Announcement.notice =
      log.map Announcement.notice ++ [n] := List.map_append
  have hannounced := h.announced
  refine ⟨.snoc h.orderly (move.inOrder h), ?_, ?_⟩
  · rw [hmap, entered_snoc]
    cases move with
    | before | tick | after => exact hannounced
    | @entered l outer => exact congrArg (l.node :: ·) hannounced
    | left => exact congrArg List.tail hannounced
  · rintro k rest loops rfl
    cases move with
    | before => exact ⟨_, List.getLast?_concat, rfl⟩

theorem Goes.ordered (move : Goes s m s' m') (h : m.Ordered log) : m'.Ordered log := by
  obtain ⟨horderly, hannounced, htick⟩ := h
  refine ⟨horderly, ?_, ?_⟩
  · cases move <;> exact hannounced
  · rintro n rest loops rfl
    cases move

/-- A statement that stops execution with nothing to report is refused a call of the sink. -/
theorem Stops.refused {h : Halt L} (move : Stops s m h) (hr : h.reported = none) :
    (∃ i, s.sink.refusal i = some h.stop) ∧ m.announced = m.loops ∧
      ∃ n, m.statement = some n := by
  cases move with
  | operate error =>
    rcases Interp.operate_error error with ⟨-, hrefusal, -⟩ | ⟨-, -, f, hstop, -⟩
    · exact ⟨⟨_, hrefusal⟩, rfl, _, rfl⟩
    · obtain ⟨stop, t⟩ := h
      cases hstop
      cases hr
  | deep | bare => cases hr

end Moment

/-! ## Execution -/

theorem Announcement.Framed.depth_le {finish : Location} {tree : List Node} {a : Announcement L}
    (h : a.Framed finish tree) : a.state.stack.length ≤ 1 + Node.depth tree := by
  obtain ⟨current, pass, hstack, hencloses, -, -⟩ := h
  have hdepth := hencloses.length_add_depth_le
  rw [hstack, length_callStack]
  omega

variable [Listener L]

/-- A fault has been raised by the sink; the step has been noted. -/
def Sink.Raised (k : Sink) (f : Fault) : Prop :=
  ∃ i g step, k.refusal i = some (.fault g) ∧ f = { g with step := some step }

namespace Config

variable {finish : Location} {tree : List Node} {c : Config L} {log before : List (Announcement L)}
  {s : Interp L} {m : Moment}

/-- By induction on the way: the call stack names the active loops at every announcement. -/
theorem Leads.framed (path : c.Leads log s m) (hc : c.moment.Framed finish tree c.state) :
    (∀ a ∈ log, a.Framed finish tree) ∧ m.Framed finish tree s := by
  induction path with
  | refl => exact ⟨List.forall_mem_nil _, hc⟩
  | announce path move ok ih =>
    obtain ⟨hlog, current, pass, hframed, hrest⟩ := ih
    refine ⟨List.forall_mem_append.2 ⟨hlog, List.forall_mem_singleton.2 ⟨current, pass, hframed⟩⟩,
      move.framed ⟨current, pass, hframed, hrest⟩ (Interp.heard_of_announce_ok ok).stack⟩
  | go path move ih => exact ⟨ih.1, move.framed ih.2⟩

/-- Execution that halts leaves the call stack of the moment at which it does. -/
theorem Halts.framed {h : Halt L} (path : c.Halts log m h)
    (hc : c.moment.Framed finish tree c.state) :
    (∀ a ∈ log, a.Framed finish tree) ∧ m.Framed finish tree h.state := by
  cases path with
  | stopped path move =>
    obtain ⟨hlog, hm⟩ := path.framed hc
    refine ⟨hlog, ?_⟩
    rw [Moment.Framed, move.stack_eq]
    exact hm
  | refused path move error =>
    obtain ⟨hlog, current, pass, hframed, hrest⟩ := path.framed hc
    refine ⟨List.forall_mem_append.2 ⟨hlog, List.forall_mem_singleton.2 ⟨current, pass, hframed⟩⟩,
      current, pass, ?_, hrest⟩
    rw [(Interp.heard_of_announce_error error).stack]
    exact hframed

/-- Execution that halts with a fault places it where it has got to, unless a listener or the sink
raised it. -/
theorem Halts.location_eq {t : Interp L} {f : Fault} (path : c.Halts log m ⟨.fault f, t⟩)
    (hc : c.moment.Framed finish tree c.state) :
    f.location = t.position ∨ (∃ a ∈ log, a.state.round a.notice = .error ⟨.fault f, t⟩) ∨
      ∃ i, c.state.sink.refusal i = some (.fault f) := by
  cases path with
  | stopped path move =>
    rw [← path.refusal_eq]
    exact (move.location_eq (path.framed hc).2).imp_right .inr
  | refused path move error =>
    rcases Interp.location_of_announce_error error with h | h
    · exact .inl h
    · exact .inr (.inl ⟨_, List.mem_append_right _ (List.mem_singleton_self _), h⟩)

/-- The fault reported for a halt is placed where execution has got to, unless a listener or the
sink raised it. -/
theorem Halts.reported_location {h : Halt L} {f : Fault} (path : c.Halts log m h)
    (hc : c.moment.Framed finish tree c.state) (hf : h.reported = some f) :
    f.location = h.state.position ∨
      (∃ a ∈ log, ∃ g u, a.state.round a.notice = .error ⟨.fault g, u⟩ ∧
        f = { g with step := some u.steps }) ∨
      c.state.sink.Raised f := by
  obtain ⟨stop, t⟩ := h
  cases stop with
  | fault g =>
    cases hf
    rcases path.location_eq hc with hplace | ⟨a, ha, hr⟩ | ⟨i, hrefusal⟩
    · exact .inl hplace
    · exact .inr (.inl ⟨a, ha, g, t, hr, rfl⟩)
    · exact .inr (.inr ⟨i, g, _, hrefusal, rfl⟩)
  | failure g =>
    cases hf
    exact .inl rfl
  | exit | interrupt | quit => cases hf

theorem Leads.ordered (path : c.Leads log s m) (hc : c.moment.Ordered before) :
    m.Ordered (before ++ log) := by
  induction path with
  | refl =>
    rw [List.append_nil]
    exact hc
  | announce path move ok ih =>
    rw [← List.append_assoc]
    exact move.ordered ih
  | go path move ih => exact move.ordered ih

theorem Halts.orderly {h : Halt L} (path : c.Halts log m h) (hc : c.moment.Ordered before) :
    Orderly (before ++ log) := by
  cases path with
  | stopped path move => exact (path.ordered hc).orderly
  | refused path move error =>
    rw [← List.append_assoc]
    exact (move.ordered (path.ordered hc)).orderly

end Config

namespace Interp

variable {s t : Interp L} {p : Program} {tape : Tape} {log : List (Announcement L)} {v : Verdict L}

/-- A fault has been raised by a listener that heard an announcement of the log. -/
def RaisedByListener (log : List (Announcement L)) (f : Fault) : Prop :=
  ∃ a ∈ log, ∃ g u, a.state.round a.notice = .error ⟨.fault g, u⟩ ∧
    (f = g ∨ f = { g with step := some u.steps })

/-- The statements that a run executes: those of the program when its start has been announced. -/
def executed (s : Interp L) (p : Program) (tape : Tape) : List Node :=
  (endState ((s.load p tape).announce .started)).program

/-- The sink has ended a run at a statement, in a way that is not reported. The call stack names the
loops that have been entered and not left. -/
structure EndedBySink (sink : Sink) (finish : Location) (tree : List Node)
    (log : List (Announcement L)) (h : Halt L) : Prop where
  unreported : h.reported = none
  refused : ∃ i, sink.refusal i = some h.stop
  framed : ∃ n loops pass, Framed finish tree h.state.stack loops (some n) (some n) pass ∧
    loops.map ActiveLoop.node = entered (log.map Announcement.notice)

/-- The call stack names the active loops at every announcement of a log, and where a run stops. -/
structure NamesLoops (sink : Sink) (finish : Location) (tree : List Node)
    (log : List (Announcement L)) (v : Verdict L) : Prop where
  framed : ∀ a ∈ log, a.Framed finish tree
  depth : ∀ a ∈ log, a.state.stack.length ≤ 1 + Node.depth tree
  orderly : Orderly log
  /-- A run that stops keeps the call stack of its last announcement, unless the sink ends it. -/
  stopped : ∀ h, v = .stopped h →
    (∃ a, log.getLast? = some a ∧ h.state.stack = a.state.stack) ∨
      EndedBySink sink finish tree log h
  /-- A fault is placed where execution has got to, unless a listener or the sink raised it. -/
  location : ∀ f u, v = .stopped ⟨.fault f, u⟩ →
    f.location = u.position ∨ RaisedByListener log f ∨ sink.Raised f
  finished : ∀ u, v = .finished u → u.stack = []

omit [Listener L] in
theorem opening_framed (s : Interp L) (p : Program) (tape : Tape) (tree : List Node) :
    (s.opening p tape).Framed p.finish tree :=
  ⟨none, tree, rfl, .top, nofun, nofun⟩

omit [Listener L] in
theorem opening_orderly (s : Interp L) (p : Program) (tape : Tape) :
    Orderly [s.opening p tape] :=
  .snoc .nil ⟨fun _ => rfl, nofun, nofun⟩

/-- Execution begins with no loop active. -/
theorem begin_framed {c : Config L} (start : s.begin p tape = .ok c) :
    c.moment.Framed p.finish (s.executed p tape) c.state := by
  obtain ⟨hstarted, hc⟩ := begin_eq_ok start
  have htree : s.executed p tape = c.rest := by
    rw [executed, hstarted, hc]
    rfl
  have hloops : c.loops = [] := by rw [hc, Config.enter]
  refine ⟨none, c.rest, ⟨?_, ?_, nofun, nofun⟩, List.Subset.refl _⟩
  · rw [(heard_of_announce_ok hstarted).stack]
    show _ = callStack p.finish none c.loops
    rw [hloops]
    rfl
  · show Encloses _ c.loops _
    rw [hloops, htree]
    exact .top

/-- The log is in order once the start of the program has been announced. -/
theorem begin_ordered {c : Config L} (start : s.begin p tape = .ok c) :
    c.moment.Ordered [s.opening p tape] := by
  have hloops : c.loops = [] := by rw [(begin_eq_ok start).2, Config.enter]
  refine ⟨opening_orderly s p tape, ?_, nofun⟩
  show c.loops.map ActiveLoop.node = _
  rw [hloops]
  rfl

/-- The call stack names the active loops at every announcement of a run. -/
theorem Tells.framed (ht : s.Tells p tape log v) :
    ∀ a ∈ log, a.Framed p.finish (s.executed p tape) := by
  have hopening := s.opening_framed p tape (s.executed p tape)
  cases ht with
  | unstarted => exact List.forall_mem_singleton.2 hopening
  | unfinished start path =>
    exact List.forall_mem_cons.2 ⟨hopening, (path.framed (begin_framed start)).1⟩
  | concluded start path =>
    obtain ⟨hlog, current, pass, ⟨hstack, hencloses, hmem, -⟩, -⟩ :=
      path.framed (begin_framed start)
    exact List.forall_mem_cons.2 ⟨hopening, List.forall_mem_append.2 ⟨hlog,
      List.forall_mem_singleton.2 ⟨current, pass, hstack, hencloses, hmem, nofun⟩⟩⟩
  | passed start path =>
    exact List.forall_mem_cons.2 ⟨hopening, (path.framed (begin_framed start)).1⟩
  | reported start path fault =>
    obtain ⟨hlog, current, pass, hframed, -⟩ := path.framed (begin_framed start)
    exact List.forall_mem_cons.2 ⟨hopening, List.forall_mem_append.2 ⟨hlog,
      List.forall_mem_singleton.2 ⟨current, pass, hframed⟩⟩⟩

/-- The announcements of a run are in order. -/
theorem Tells.orderly (ht : s.Tells p tape log v) : Orderly log := by
  cases ht with
  | unstarted => exact opening_orderly s p tape
  | unfinished start path => exact (path.ordered (begin_ordered start)).orderly
  | concluded start path =>
    have hlog := path.ordered (begin_ordered start)
    exact .snoc hlog.orderly ⟨fun _ => hlog.announced, nofun, nofun⟩
  | passed start path => exact path.orderly (begin_ordered start)
  | @reported c log m h f start path fault =>
    exact .snoc (path.orderly (begin_ordered start)) ⟨fun hf => absurd rfl (hf f), nofun, nofun⟩

/-- A run that stops keeps the call stack of its last announcement, unless the sink ends it. -/
theorem Tells.stopped_stack (ht : s.Tells p tape log v) {h : Halt L} (hv : v = .stopped h) :
    (∃ a, log.getLast? = some a ∧ h.state.stack = a.state.stack) ∨
      EndedBySink s.sink p.finish (s.executed p tape) log h := by
  cases ht with
  | unstarted start =>
    cases hv
    exact .inl ⟨_, rfl, (heard_of_announce_error (begin_eq_error start)).stack⟩
  | unfinished => cases hv
  | @concluded c log t traced start path =>
    refine .inl ⟨t.closing, ?_, ?_⟩
    · rw [← List.cons_append, List.getLast?_concat]
    · obtain ⟨u, hu, hend | ⟨stop, hend⟩⟩ := t.exists_conclude
      · cases hend.symm.trans hv
      · cases hend.symm.trans hv
        exact hu.stack
  | @passed c log m h' start path signal =>
    cases hv
    cases path with
    | stopped path move =>
      obtain ⟨hrefused, hannounced, n, hn⟩ := move.refused signal
      rw [path.refusal_eq, begin_refusal_eq start] at hrefused
      obtain ⟨-, current, pass, ⟨hstack, hencloses, hmem, hcurrent⟩, -⟩ :=
        path.framed (begin_framed start)
      obtain rfl := hcurrent n hn
      refine .inr ⟨signal, hrefused, n, m.loops, pass, ⟨?_, hencloses, hmem, fun _ => id⟩, ?_⟩
      · rw [move.stack_eq, hstack]
      · rw [← hannounced]
        exact (path.ordered (begin_ordered start)).announced
    | @refused log t m m' n h' path move error =>
      refine .inl ⟨m.announcement t n, ?_, (heard_of_announce_error error).stack⟩
      rw [← List.cons_append, List.getLast?_concat]
  | @reported c log m h' f start path fault =>
    refine .inl ⟨⟨.failed f, h'.state, m.statement, m.loops⟩, ?_, ?_⟩
    · rw [← List.cons_append, List.getLast?_concat]
    · obtain rfl := Verdict.stopped.inj hv
      exact (report_heard fault).stack

/-- A fault that leaves a run is placed where execution has got to, unless a listener or the sink
raised it. -/
theorem Tells.location_eq (ht : s.Tells p tape log v) {f : Fault}
    (hv : v = .stopped ⟨.fault f, t⟩) :
    f.location = t.position ∨ RaisedByListener log f ∨ s.sink.Raised f := by
  -- outside execution the fault leaves as the announcement halts with it
  have hannounce {a : Announcement L} (ha : a ∈ log)
      (he : a.state.announce a.notice = .error ⟨.fault f, t⟩) :
      f.location = t.position ∨ RaisedByListener log f ∨ s.sink.Raised f :=
    (location_of_announce_error he).imp_right fun hr => .inl ⟨a, ha, f, t, hr, .inl rfl⟩
  cases ht with
  | unstarted start =>
    cases hv
    exact hannounce List.mem_cons_self (begin_eq_error start)
  | unfinished => cases hv
  | @concluded c log u traced start path =>
    rw [conclude] at hv
    split at hv
    · cases hv
    · next he =>
      cases hv
      exact hannounce (a := u.closing)
        (List.mem_cons_of_mem _ (List.mem_append_right _ (List.mem_singleton_self _))) he
  | passed start path signal =>
    cases hv
    cases signal
  | @reported c log m h f' start path fault =>
    have hmem : (⟨.failed f', h.state, m.statement, m.loops⟩ : Announcement L) ∈
        s.opening p tape :: (log ++ [⟨.failed f', h.state, m.statement, m.loops⟩]) :=
      List.mem_cons_of_mem _ (List.mem_append_right _ (List.mem_singleton_self _))
    have hreport := Verdict.stopped.inj hv
    rw [report_of_reported fault] at hreport
    split at hreport
    · next u hu =>
      cases hreport
      rw [(heard_of_announce_ok hu).position_eq]
      rcases path.reported_location (begin_framed start) fault with
        hplace | ⟨a, ha, g, w, hr, hf⟩ | ⟨i, g, step, hrefusal, hf⟩
      · exact .inl hplace
      · exact .inr (.inl
          ⟨a, List.mem_cons_of_mem _ (List.mem_append_left _ ha), g, w, hr, .inr hf⟩)
      · rw [begin_refusal_eq start] at hrefusal
        exact .inr (.inr ⟨i, g, step, hrefusal, hf⟩)
    · next he =>
      subst hreport
      exact hannounce hmem he

/-- A run that finishes gives up the frame of the program, the only one left. -/
theorem Tells.finished_stack (ht : s.Tells p tape log v) (hv : v = .finished t) :
    t.stack = [] := by
  cases ht with
  | unstarted | unfinished | passed => cases hv
  | @reported c log m h f start path fault => cases hv
  | @concluded c log u traced start path =>
    obtain ⟨-, current, pass, ⟨hstack, -, -, -⟩, -⟩ := path.framed (begin_framed start)
    obtain ⟨w, hw, hend | ⟨stop, hend⟩⟩ := u.exists_conclude
    · cases hend.symm.trans hv
      rw [pop, hw.stack, hstack]
      rfl
    · cases hend.symm.trans hv

/-- In every run the call stack names exactly the active loops, at each call of a listener and where
the run stops: the frame of the program and one for each loop that has been entered and not left,
each at the loop of the next. -/
theorem run_namesLoops (s : Interp L) (tape : Tape) {p : Program} (hp : s.parse = .ok p)
    (fuel : Nat) :
    ∃ log, s.Tells p tape log (s.run fuel tape) ∧ s.CalledFor log (s.run fuel tape).state ∧
      NamesLoops s.sink p.finish (s.executed p tape) log (s.run fuel tape) := by
  obtain ⟨log, ht⟩ := exists_tells hp tape fuel
  exact ⟨log, ht, ht.calledFor,
    { framed := ht.framed
      depth := fun a ha => (ht.framed a ha).depth_le
      orderly := ht.orderly
      stopped := fun _ hv => ht.stopped_stack hv
      location := fun _ _ hv => ht.location_eq hv
      finished := fun _ hv => ht.finished_stack hv }⟩

open Evaluation in
/-- A listener appends two loops around a comma to the program `+`. The run stops inside both, and a
listener of faults sees all three frames. -/
theorem run_namesLoops_in_two_loops :
    let loop : Node := .loop ⟨"a", 1, 2, ""⟩ [.loop ⟨"a", 1, 3, ""⟩ [.op .input none]]
    let s : Interp Script :=
      { source := "+", file := "<string>"
        hooks := #[⟨.on .programStart, .mk "a" none [.append [loop]], 0⟩,
          ⟨.on .onError, .mk "b" none [], 0⟩] }
    let tape : Tape := ⟨1, Vector.replicate 1 0, 0⟩
    ∃ p log f t, s.parse = .ok p ∧ s.run 4 tape = .stopped ⟨.fault f, t⟩ ∧
      t.stack.map Frame.name = ["loop@1:3", "loop@1:2", "<top-level>"] ∧
      (t.journal.map fun call => call.stack.length) = #[1, 3] ∧
      NamesLoops s.sink p.finish (s.executed p tape) log (.stopped ⟨.fault f, t⟩) := by
  intro loop s tape
  have htokens : Source.ofText "+" "<string>" =
      ⟨#[⟨.op .increment, 1, 1⟩, ⟨.finish, 1, 2⟩], "<string>", #["+"]⟩ := rfl
  have hstop : (s.run 4 tape).stop? = some (.fault {
      message := "The ',' operator is not supported.", rule := some "InputReplace",
      step := some 4 }) := by simp [s, loop, tape, htokens, Verdict.stop?]
  have hnames : (s.run 4 tape).state.stack.map Frame.name =
      ["loop@1:3", "loop@1:2", "<top-level>"] := by
    simp [s, loop, tape, htokens, Verdict.state]
    decide
  have hcalls : ((s.run 4 tape).state.journal.map fun call => call.stack.length) = #[1, 3] := by
    simp [s, loop, tape, htokens, Verdict.state]
  have hrun := Verdict.eq_stopped hstop
  cases hp : s.parse with
  | error e =>
    rw [run, hp] at hrun
    cases hrun
  | ok p =>
    obtain ⟨log, -, -, hloops⟩ := run_namesLoops s tape hp 4
    rw [hrun] at hloops
    exact ⟨p, log, _, _, rfl, hrun, hnames, hcalls, hloops⟩

end Interp

end TapeLang
