import TapeLang.Proofs.Histories
import TapeLang.Script

/-!
# Tracing, pass by pass

Whether a pass over statements is traced is settled when the pass begins, by whether anybody listens
to single instructions then. A traced pass announces every statement that it starts, up to the
failure that stops it. An untraced pass announces none of its own, whatever is registered meanwhile
and whatever the passes inside it do.
-/

namespace TapeLang

variable {L : Type}

namespace Moment

/-- The active loops around the pass that is under way. -/
def around : Moment → List ActiveLoop
  | next _ _ loops | before _ _ _ loops | tick _ _ _ loops | effect _ _ _ loops
  | after _ _ _ loops => loops
  | entering _ outer | turning _ outer | leaving _ outer | left _ outer => outer

/-- The announcement that is being made at a moment, if there is one. -/
def saying (s : Interp L) : Moment → List (Announcement L)
  | m@(before n _ true _) => [m.announcement s (.before n)]
  | m@(tick _ _ true _) => [m.announcement s (.tick s.steps)]
  | m@(after n _ true _) => [m.announcement s (.after n)]
  | m@(entering l _) => [m.announcement s (.entered l.node)]
  | m@(leaving l _) => [m.announcement s (.left l.node)]
  | _ => []

variable {s s' : Interp L} {m m' : Moment} {n : Notice}

theorem loops_of_mem_saying {a : Announcement L} (h : a ∈ m.saying s) : a.loops = m.loops := by
  unfold saying at h
  split at h <;> first | cases List.mem_singleton.1 h; rfl | cases h

theorem Announces.around_eq (h : Announces s m n m') : m'.around = m.around := by
  cases h <;> rfl

theorem Announces.loops_eq (h : Announces s m n m') : m'.loops = m.loops := by
  cases h <;> rfl

/-- Going on by itself, execution stays within the same loops, enters one, or comes back to the
pass around one that it has left. -/
theorem Goes.loops_cases (h : Goes s m s' m') :
    m'.loops = m.loops ∨ (∃ l, m'.loops = l :: m.loops) ∨
      ∃ l outer, m.loops = l :: outer ∧ m' = .after l.node l.rest l.traced outer := by
  cases h with
  | enter => exact .inr (.inl ⟨_, rfl⟩)
  | leave => exact .inr (.inr ⟨_, _, rfl, rfl⟩)
  | _ => exact .inl rfl

end Moment

/-- A notice about a single instruction. -/
def Notice.perInstruction : Notice → Bool
  | .before _ | .tick _ | .after _ => true
  | _ => false

/-- What the listeners are told of a statement that is started, with the count at its start. -/
def told : Node × Nat → List Notice
  | (n, k) => [.before n, .tick k, .after n]

/-! ## What a pass announces -/

namespace Config

/-- The notices about instructions of the pass itself that begins at `d`. -/
def own (d : Config L) (log : List (Announcement L)) : List Notice :=
  (log.filter fun a => a.notice.perInstruction && a.loops.length == d.loops.length).map
    Announcement.notice

/-- What a pass has still to start at a moment, and what is still to be announced, after that
moment, of the statement that it has under way. -/
inductive Stands (d : Config L) : Interp L → Moment → List Node → List Notice → Prop where
  | next {s : Interp L} {rest : List Node} : Stands d s (.next rest d.traced d.loops) rest []
  | before {s : Interp L} {n : Node} {rest : List Node} :
      Stands d s (.before n rest d.traced d.loops) rest [.tick s.steps, .after n]
  | tick {s : Interp L} {n : Node} {rest : List Node} :
      Stands d s (.tick n rest d.traced d.loops) rest [.after n]
  | effect {s : Interp L} {n : Node} {rest : List Node} :
      Stands d s (.effect n rest d.traced d.loops) rest [.after n]
  | after {s : Interp L} {n : Node} {rest : List Node} :
      Stands d s (.after n rest d.traced d.loops) rest []
  /-- A loop of the pass is active. -/
  | inside {s : Interp L} {m : Moment} {inner : List ActiveLoop} {l : ActiveLoop}
      (within : m.loops = inner ++ l :: d.loops) (same : l.traced = d.traced) :
      Stands d s m l.rest [.after l.node]

/-- Of the whole that is to be announced, a traced pass has said one part and the other is due. An
untraced pass says nothing. -/
def Says (d : Config L) (whole said due : List Notice) : Prop :=
  if d.traced then said ++ due = whole else said = []

variable {d : Config L} {s s' : Interp L} {m m' : Moment} {n : Notice} {rest : List Node}
  {due : List Notice}

theorem Says.trans {whole said said' due' : List Notice} (h : d.Says whole said due)
    (h' : d.Says due said' due') : d.Says whole (said ++ said') due' := by
  unfold Says at h h' ⊢
  split
  · next traced =>
    rw [if_pos traced] at h h'
    rw [List.append_assoc, h', h]
  · next untraced =>
    rw [if_neg untraced] at h h'
    rw [h, h', List.append_nil]

/-- What is said of another statement comes after all that was due. -/
theorem Says.append {whole said part said' : List Notice} (h : d.Says whole said [])
    (h' : d.Says part said' due) : d.Says (whole ++ part) (said ++ said') due := by
  unfold Says at h h' ⊢
  split
  · next traced =>
    rw [if_pos traced] at h h'
    rw [List.append_assoc, h', ← h, List.append_nil]
  · next untraced =>
    rw [if_neg untraced] at h h'
    rw [h, h', List.append_nil]

/-- An announcement that is due is made in a traced pass, and nothing in another. -/
theorem says_cons (d : Config L) (n : Notice) (due : List Notice) :
    d.Says (n :: due) (if d.traced then [n] else []) due := by
  unfold Says
  split <;> rfl

theorem says_nil (d : Config L) (due : List Notice) : d.Says due [] due := by
  unfold Says
  split <;> rfl

/-- While a loop of the pass is active, nothing that is announced is about the pass itself. -/
theorem own_saying_inside {inner : List ActiveLoop} {l : ActiveLoop}
    (within : m.loops = inner ++ l :: d.loops) : d.own (m.saying s) = [] := by
  have hnone : ∀ a ∈ m.saying s, a.loops.length ≠ d.loops.length := by
    intro a ha
    rw [Moment.loops_of_mem_saying ha, within, List.length_append, List.length_cons]
    omega
  rw [own, List.filter_eq_nil_iff.2 fun a ha => by simp [hnone a ha], List.map_nil]

theorem own_saying_tick (d : Config L) (s : Interp L) (n : Node) (rest : List Node) :
    d.own (Moment.saying s (.tick n rest d.traced d.loops)) =
      if d.traced then [.tick s.steps] else [] := by
  obtain ⟨t, nodes, traced, loops⟩ := d
  cases traced <;>
    simp [own, Moment.saying, Moment.announcement, Moment.loops, Notice.perInstruction]

theorem own_saying_after (d : Config L) (s : Interp L) (n : Node) (rest : List Node) :
    d.own (Moment.saying s (.after n rest d.traced d.loops)) =
      if d.traced then [.after n] else [] := by
  obtain ⟨t, nodes, traced, loops⟩ := d
  cases traced <;>
    simp [own, Moment.saying, Moment.announcement, Moment.loops, Notice.perInstruction]

/-- A pass goes on to a moment: the next of what was due is said there. -/
def Onward (d : Config L) (s : Interp L) (m : Moment) (rest : List Node) (due : List Notice) :
    Prop :=
  ∃ due', d.Stands s m rest due' ∧ d.Says due (d.own (m.saying s)) due'

theorem onward_tick (d : Config L) (s : Interp L) (n : Node) (rest : List Node) :
    d.Onward s (.tick n rest d.traced d.loops) rest [.tick s.steps, .after n] := by
  refine ⟨_, .tick, ?_⟩
  rw [own_saying_tick]
  exact d.says_cons _ _

theorem onward_effect (d : Config L) (s : Interp L) (n : Node) (rest : List Node) :
    d.Onward s (.effect n rest d.traced d.loops) rest [.after n] :=
  ⟨_, .effect, d.says_nil _⟩

theorem onward_after (d : Config L) (s : Interp L) (n : Node) (rest : List Node) :
    d.Onward s (.after n rest d.traced d.loops) rest [.after n] := by
  refine ⟨_, .after, ?_⟩
  rw [own_saying_after]
  exact d.says_cons _ _

theorem onward_next (d : Config L) (s : Interp L) (rest : List Node) :
    d.Onward s (.next rest d.traced d.loops) rest [] :=
  ⟨_, .next, d.says_nil _⟩

/-- With a loop of the pass still active, nothing changes for the pass. -/
theorem onward_inside {inner : List ActiveLoop} {l : ActiveLoop}
    (within : m.loops = inner ++ l :: d.loops) (same : l.traced = d.traced) :
    d.Onward s m l.rest [.after l.node] := by
  refine ⟨_, .inside within same, ?_⟩
  rw [own_saying_inside within]
  exact d.says_nil _

/-- After an announcement a pass goes on to the next moment. -/
theorem Stands.announce (h : d.Stands s m rest due) (move : m.Announces s n m')
    (steps : s'.steps = s.steps) : d.Onward s' m' rest due := by
  obtain ⟨t, nodes, traced, loops⟩ := d
  cases h with
  | next | effect => cases move
  | before =>
    cases move
    exact steps ▸ onward_tick _ s' _ _
  | tick =>
    cases move
    exact onward_effect ..
  | after =>
    cases move
    exact onward_next ..
  | inside within same => exact onward_inside (move.loops_eq.trans within) same

/-- So it does when execution goes on by itself, unless it starts a statement or is over. -/
theorem Stands.go (h : d.Stands s m rest due) (move : m.Goes s s' m')
    (inside : ∀ rest traced, m ≠ .next rest traced d.loops) : d.Onward s' m' rest due := by
  obtain ⟨t, nodes, traced, loops⟩ := d
  cases h with
  | next => exact absurd rfl (inside _ _)
  | before =>
    cases move
    exact ⟨_, .tick, rfl⟩
  | tick =>
    cases move
    exact onward_effect ..
  | effect =>
    cases move with
    | operate ok => exact onward_after ..
    | skip zero => exact onward_after ..
    | @enter place body =>
      let l : ActiveLoop := ⟨place, body, rest, traced⟩
      have within : (Moment.entering l loops).loops = [] ++ l :: loops := rfl
      exact onward_inside (d := ⟨t, nodes, traced, loops⟩) within rfl
  | after =>
    cases move
    exact ⟨_, .next, rfl⟩
  | @inside _ inner l within same =>
    rcases move.loops_cases with hsame | ⟨l', hentered⟩ | ⟨l', outer, hloops, rfl⟩
    · exact onward_inside (hsame.trans within) same
    · have hwithin : m'.loops = (l' :: inner) ++ l :: loops := by
        rw [hentered, within, List.cons_append]
      exact onward_inside hwithin same
    · rw [within] at hloops
      cases inner with
      | nil =>
        cases hloops
        subst same
        exact onward_after ..
      | cons l₁ inner =>
        cases hloops
        exact onward_inside rfl same

end Config

/-! ## Passes -/

/-- A pass begins at a stage: an execution as a whole, or a turn of a loop. -/
inductive Stage.Opens : Stage L → Config L → Prop where
  | execution {s : Interp L} (nodes : List Node) : Opens (.between s) (Config.enter s nodes)
  | turn {s : Interp L} {l : ActiveLoop} {outer : List ActiveLoop} (nonzero : s.cell ≠ 0) :
      Opens (.within s (.turning l outer)) ⟨s, l.body, !s.hooks.idle, l :: outer⟩

theorem Stage.Opens.state_eq {σ : Stage L} {d : Config L} (h : σ.Opens d) : d.state = σ.state := by
  cases h <;> rfl

variable [Listener L]

/-- A pass, from its beginning `d` on, comes to a moment: with the statements of its own that it has
started, the counts at their starts, and the announcements on the way, those of the passes inside it
among them. With nothing left to start it is over. -/
inductive Config.Pass (d : Config L) :
    List (Node × Nat) → List (Announcement L) → Interp L → Moment → Prop where
  | opened : Pass d [] [] d.state d.moment
  | start {started : List (Node × Nat)} {log : List (Announcement L)} {s : Interp L} {n : Node}
      {rest : List Node} {traced : Bool}
      (path : Pass d started log s (.next (n :: rest) traced d.loops)) :
      Pass d (started ++ [(n, (s.start n).steps)]) log (s.start n) (.before n rest traced d.loops)
  | announce {started : List (Node × Nat)} {log : List (Announcement L)} {s s' : Interp L}
      {m m' : Moment} {n : Notice} (path : Pass d started log s m) (move : m.Announces s n m')
      (ok : s.announce n = .ok s') : Pass d started (log ++ [m.announcement s n]) s' m'
  | go {started : List (Node × Nat)} {log : List (Announcement L)} {s s' : Interp L}
      {m m' : Moment} (path : Pass d started log s m) (move : m.Goes s s' m')
      (inside : ∀ rest traced, m ≠ .next rest traced d.loops) : Pass d started log s' m'

namespace Config

variable {d : Config L} {started : List (Node × Nat)} {log : List (Announcement L)} {s : Interp L}
  {m : Moment}

end Config

/-! ## Every stage belongs to passes -/

namespace Stage

variable {σ τ : Stage L} {s s' : Interp L} {m m' : Moment} {d : Config L}

theorem Opens.next (h : σ.Opens d) : σ.Next (.within d.state d.moment) := by
  cases h with
  | execution nodes => exact .enter nodes
  | turn nonzero => exact .go (.turn nonzero)

/-- In the history from `σ` on, a pass has begun with these loops around it, and has come to a
moment. -/
def Covers (σ : Stage L) (s : Interp L) (m : Moment) (base : List ActiveLoop) : Prop :=
  ∃ ρ d started log, σ.Reaches ρ ∧ ρ.Opens d ∧ d.loops = base ∧ d.Pass started log s m

variable {base : List ActiveLoop}

theorem Covers.announce {n : Notice} (h : σ.Covers s m base) (move : m.Announces s n m')
    (ok : s.announce n = .ok s') : σ.Covers s' m' base := by
  obtain ⟨ρ, d, started, log, hreaches, hopens, hloops, path⟩ := h
  exact ⟨ρ, d, started, _, hreaches, hopens, hloops, path.announce move ok⟩

theorem Covers.go (h : σ.Covers s m base) (move : m.Goes s s' m')
    (inside : ∀ rest traced, m ≠ .next rest traced base) : σ.Covers s' m' base := by
  obtain ⟨ρ, d, started, log, hreaches, hopens, rfl, path⟩ := h
  exact ⟨ρ, d, started, _, hreaches, hopens, rfl, path.go move inside⟩

theorem Covers.start {n : Node} {rest : List Node} {traced : Bool} {loops : List ActiveLoop}
    (h : σ.Covers s (.next (n :: rest) traced loops) base) :
    σ.Covers (s.start n) (.before n rest traced loops) base := by
  by_cases hbase : loops = base
  · obtain ⟨ρ, d, started, log, hreaches, hopens, rfl, path⟩ := h
    subst hbase
    exact ⟨ρ, d, _, log, hreaches, hopens, rfl, path.start⟩
  · exact h.go .start fun _ _ heq => hbase (Moment.next.inj heq).2.2

end Stage

end TapeLang
