import TapeLang.Proofs.Histories
import TapeLang.Proofs.Past

/-!
# The count that listeners hear

Statements are counted where they are started, and the count is announced before they take effect.
So a listener that asks for every `k`-th statement hears all the multiples of `k`, each once and in
ascending order, whatever else the interpreter has been through: loops and single statements, runs
that failed and executions of any kind. This holds as long as no listener takes an action.
-/

namespace TapeLang

variable {L : Type}

/-! ## Rounds of listeners that take no action -/

namespace Interp

/-- A call of a listener in a state, as the journal keeps it. -/
def call (s : Interp L) (l : L) (n : Notice) : Call L where
  listener := l
  notice := n
  steps := s.steps
  stack := s.stack
  top := s.program.length
  cell := s.tape.map fun t => (t.pointer.val, t.current)

@[simp] theorem call_notice (s : Interp L) (l : L) (n : Notice) : (s.call l n).notice = n := rfl

variable {s t u : Interp L}

theorem Alike.refl (s : Interp L) : s.Alike s :=
  ⟨rfl, rfl, rfl, rfl, rfl, rfl, rfl, rfl, rfl⟩

theorem Alike.trans (h : s.Alike t) (h' : t.Alike u) : s.Alike u :=
  ⟨h.source.trans h'.source, h.file.trans h'.file, h.steps.trans h'.steps,
    h.stack.trans h'.stack, h.tape.trans h'.tape, h.bench.trans h'.bench,
    h.program.trans h'.program, h.sink.trans h'.sink, h.reports.trans h'.reports⟩

theorem Alike.call_eq (h : s.Alike t) (l : L) (n : Notice) : s.call l n = t.call l n := by
  rw [call, call, h.steps, h.stack, h.program, h.tape]

end Interp

variable [Listener L]

/-- A call that leads to nothing is noted, and that is all. -/
theorem Visit.outcome_of_observing (v : Visit L) (h : v.state.hooks.Observing) (n : Notice) :
    v.outcome n = .ok (v.state.noteCall v.index v.subscription.listener n) := by
  have hquiet := h v.subscription (Array.getElem_mem v.within)
  rw [outcome, Interp.callListener, hquiet, Interp.performAll]

namespace Interp

/-- Between two states listeners have been called, and none has taken an action or joined. -/
structure Observed (s t : Interp L) : Prop where
  alike : t.Alike s
  observing : t.hooks.Observing
  registered : t.hooks.registered = s.hooks.registered

variable {s t u : Interp L} {n : Notice}

theorem Calls.observed {visits : List (Visit L)} {r : Except (Halt L) (Interp L)}
    (h : Calls n s visits r) (hs : s.hooks.Observing) :
    (∃ t, r = .ok t ∧ s.Observed t) ∧
      ∀ v ∈ visits, v.call n = s.call v.subscription.listener n := by
  induction h with
  | none => exact ⟨⟨_, rfl, .refl _, hs, rfl⟩, List.forall_mem_nil _⟩
  | @called v s visits r ok later ih =>
    obtain rfl := Except.ok.inj ((v.outcome_of_observing hs n).symm.trans ok)
    have hsame : (v.state.noteCall v.index v.subscription.listener n).Alike v.state :=
      ⟨rfl, rfl, rfl, rfl, rfl, rfl, rfl, rfl, rfl⟩
    obtain ⟨⟨t, rfl, ht⟩, hvisits⟩ := ih (hs.count v.index)
    refine ⟨⟨t, rfl, ht.alike.trans hsame, ht.observing, ?_⟩, ?_⟩
    · exact ht.registered.trans (Hooks.registered_count _ _)
    · refine List.forall_mem_cons.2 ⟨rfl, fun w hw => ?_⟩
      rw [hvisits w hw, hsame.call_eq]
  | @stopped v h error =>
    cases (v.outcome_of_observing hs n).symm.trans error

/-- An announcement calls those whom it is for, in the order in which they have registered, and
changes nothing else. -/
theorem exists_announce (h : s.hooks.Observing) (n : Notice) :
    ∃ t, s.announce n = .ok t ∧ s.Observed t ∧ t.journal.toList =
      s.journal.toList ++ (s.hooks.audience n.signal).map fun e => s.call e.1.2 n := by
  obtain ⟨visits, hcalls, hreached⟩ := s.exists_calls n 0
  obtain ⟨⟨t, ht, hobserved⟩, hvisits⟩ := hcalls.observed h
  have hjournal := hcalls.journal
  have hround : s.round n = .ok t := ht
  rw [ht] at hreached hjournal
  have haudience : visits.map Visit.entry = t.hooks.audience n.signal := hreached
  rw [Hooks.audience, hobserved.registered] at haudience
  refine ⟨t, by rw [announce, hround], hobserved, hjournal.trans (congrArg _ ?_)⟩
  calc visits.map (Visit.call n)
      = visits.map fun v => s.call v.subscription.listener n := List.map_congr_left hvisits
    _ = (visits.map Visit.entry).map fun e => s.call e.1.2 n := by
      rw [List.map_map]
      rfl
    _ = (s.hooks.audience n.signal).map fun e => s.call e.1.2 n := by rw [haudience, Hooks.audience]

end Interp

/-- The calls that an announcement brings when nobody takes an action, each with the place at which
its listener has registered. -/
def Announcement.rings (a : Announcement L) : List (Nat × Call L) :=
  (a.state.hooks.audience a.notice.signal).map fun e => (e.2, a.state.call e.1.2 a.notice)

/-! ## The order of announcements -/

/-- A notice of the start of a statement. -/
def Notice.Starting : Notice → Prop
  | .before _ | .tick _ => True
  | _ => False

/-- An interpreter goes from one state to another, and makes the announcements of a log. Each
statement is counted, then announced, then its count is announced, and then it takes effect, in a
state that differs in nothing but the calls of listeners. -/
inductive Clocked (s : Interp L) : List (Announcement L) → Interp L → Prop where
  | none : Clocked s [] s
  /-- Whatever happens that calls nobody and starts no statement. -/
  | quiet {log : List (Announcement L)} {t u : Interp L} (earlier : Clocked s log t)
      (hooks : u.hooks = t.hooks) (journal : u.journal = t.journal) (steps : u.steps = t.steps) :
      Clocked s log u
  | other {log : List (Announcement L)} {t u : Interp L} (earlier : Clocked s log t) {n : Notice}
      (other : ¬n.Starting) (ok : t.announce n = .ok u) (statement : Option Node)
      (loops : List ActiveLoop) : Clocked s (log ++ [⟨n, t, statement, loops⟩]) u
  | start {log : List (Announcement L)} {d : Config L} (earlier : Clocked s log d.state) {n : Node}
      {rest : List Node} {t u : Interp L} (next : d.rest = n :: rest)
      (before : (d.state.start n).announce (.before n) = .ok t)
      (tick : t.announce (.tick (d.state.steps + 1 : Nat)) = .ok u)
      (alike : u.Alike (d.state.start n))
      (effect : d.step = Config.perform u n rest d.traced d.loops) :
      Clocked s (log ++ [⟨.before n, d.state.start n, some n, d.loops⟩,
        ⟨.tick (d.state.steps + 1 : Nat), t, some n, d.loops⟩]) u

namespace Clocked

variable {s t u : Interp L} {log log' : List (Announcement L)}

theorem trans (h : Clocked s log t) (h' : Clocked t log' u) : Clocked s (log ++ log') u := by
  induction h' with
  | none => rwa [List.append_nil]
  | quiet earlier hooks journal steps ih => exact ih.quiet hooks journal steps
  | other earlier other ok statement loops ih =>
    rw [← List.append_assoc]
    exact ih.other other ok statement loops
  | start earlier next before tick alike effect ih =>
    rw [← List.append_assoc]
    exact ih.start next before tick alike effect

end Clocked

/-- From `s` to `t` the announcements of a log have been made, each has brought its calls, and
nobody has taken an action or joined. -/
structure Rung (s : Interp L) (log : List (Announcement L)) (t : Interp L) : Prop where
  observing : t.hooks.Observing
  registered : t.hooks.registered = s.hooks.registered
  places : ∀ a ∈ log, a.state.hooks.registered = s.hooks.registered
  journal : t.journal.toList = s.journal.toList ++ (log.flatMap Announcement.rings).map Prod.snd

namespace Rung

variable {s t u : Interp L} {log : List (Announcement L)}

theorem refl (h : s.hooks.Observing) : Rung s [] s :=
  ⟨h, rfl, List.forall_mem_nil _, (List.append_nil _).symm⟩

theorem idle (h : Rung s log t) (hidle : s.hooks.idle = false) : t.hooks.idle = false :=
  Hooks.idle_of_registered (h.registered ▸ List.prefix_rfl) hidle

theorem quiet (h : Rung s log t) (hooks : u.hooks = t.hooks) (journal : u.journal = t.journal) :
    Rung s log u :=
  ⟨hooks ▸ h.observing, hooks ▸ h.registered, h.places, journal ▸ h.journal⟩

theorem announce (h : Rung s log t) {n : Notice} (ok : t.announce n = .ok u)
    (statement : Option Node) (loops : List ActiveLoop) :
    Rung s (log ++ [⟨n, t, statement, loops⟩]) u := by
  obtain ⟨u', hu, hobserved, hjournal⟩ := Interp.exists_announce h.observing n
  obtain rfl := Except.ok.inj (ok.symm.trans hu)
  refine ⟨hobserved.observing, hobserved.registered.trans h.registered,
    List.forall_mem_append.2 ⟨h.places, List.forall_mem_singleton.2 h.registered⟩, ?_⟩
  rw [hjournal, h.journal, List.flatMap_append, List.map_append, List.append_assoc,
    List.flatMap_singleton, Announcement.rings, List.map_map]
  rfl

end Rung

/-- Whatever announcements are made, they bring their calls. -/
theorem Clocked.rung {s t : Interp L} {log : List (Announcement L)} (h : Clocked s log t)
    (hs : s.hooks.Observing) : Rung s log t := by
  induction h with
  | none => exact .refl hs
  | quiet earlier hooks journal steps ih => exact ih.quiet hooks journal
  | other earlier other ok statement loops ih => exact ih.announce ok statement loops
  | @start log d earlier n rest t u next before tick alike effect ih =>
    have hstart : Rung s log (d.state.start n) := ih.quiet rfl rfl
    have hboth := (hstart.announce before (some n) d.loops).announce tick (some n) d.loops
    rwa [List.append_assoc] at hboth

/-! ## Execution -/

/-- The announcements of a log are those of all statements that have been counted, but for what is
still to be announced of the one at hand. -/
def Moment.Clocks (s : Interp L) (log : List (Announcement L)) (t : Interp L) : Moment → Prop
  | .before n _ _ _ => ∃ u : Interp L, t = u.start n ∧ Clocked s log u
  | .tick n _ _ loops => ∃ (u : Interp L) (earlier : List (Announcement L)),
      log = earlier ++ [⟨.before n, u.start n, some n, loops⟩] ∧
        (u.start n).announce (.before n) = .ok t ∧ t.Alike (u.start n) ∧ Clocked s earlier u
  | _ => Clocked s log t

namespace Moment

variable {s t t' : Interp L} {m m' : Moment} {n : Notice} {log : List (Announcement L)}

theorem Announces.clocks (move : Announces t m n m') (ht : t.hooks.Observing)
    (ok : t.announce n = .ok t') (h : m.Clocks s log t) :
    m'.Clocks s (log ++ [m.announcement t n]) t' := by
  have halike : t'.Alike t := by
    obtain ⟨_, hu, hobserved, -⟩ := Interp.exists_announce ht n
    obtain rfl := Except.ok.inj (ok.symm.trans hu)
    exact hobserved.alike
  cases move with
  | before =>
    obtain ⟨u, rfl, hclocked⟩ := h
    exact ⟨u, log, rfl, ok, halike, hclocked⟩
  | @tick n rest loops =>
    obtain ⟨u, earlier, rfl, before, hsame, hclocked⟩ := h
    have hcount : t.steps = u.steps + 1 := hsame.steps
    have heffect : Config.step ⟨u, n :: rest, true, loops⟩ =
        Config.perform t' n rest true loops := by
      rw [Config.step, Interp.announceBefore, if_pos rfl, before]
      simp only [ok]
    rw [hcount] at ok
    show Clocked s (_ ++ [⟨.tick t.steps, t, some n, loops⟩]) t'
    rw [hcount, List.append_assoc]
    exact hclocked.start (d := ⟨u, n :: rest, true, loops⟩) rfl before ok (halike.trans hsame)
      heffect
  | after | entered | left =>
    have hclocked : Clocked s log t := h
    refine hclocked.other ?_ ok _ _
    exact id

theorem Goes.clocks (move : Goes t m t' m') (passes : ∀ traced ∈ m.passes, traced = true)
    (h : m.Clocks s log t) : m'.Clocks s log t' := by
  cases move with
  | start => exact ⟨t, rfl, h⟩
  | before | tick => exact absurd (passes false List.mem_cons_self) Bool.false_ne_true
  | operate ok =>
    have hclocked : Clocked s log t := h
    obtain ⟨tape, bench, sink, -, rfl⟩ := Interp.operate_ok ok
    exact hclocked.quiet rfl rfl rfl
  | _ =>
    have hclocked : Clocked s log t := h
    exact hclocked.quiet rfl rfl rfl

end Moment

namespace Config

variable {c : Config L} {log : List (Announcement L)} {s : Interp L} {m : Moment}

/-- While somebody listens to single statements, execution makes all announcements of them. -/
theorem Leads.clocks (path : c.Leads log s m) (hc : c.state.hooks.Observing)
    (hidle : c.state.hooks.idle = false) (hpasses : ∀ traced ∈ c.moment.passes, traced = true) :
    Rung c.state log s ∧ (∀ traced ∈ m.passes, traced = true) ∧ m.Clocks c.state log s := by
  induction path with
  | refl => exact ⟨.refl hc, hpasses, .none⟩
  | announce path move ok ih =>
    obtain ⟨hrung, hpasses, hclocks⟩ := ih
    exact ⟨hrung.announce ok _ _, move.passes_eq ▸ hpasses,
      move.clocks hrung.observing ok hclocks⟩
  | go path move ih =>
    obtain ⟨hrung, hpasses, hclocks⟩ := ih
    exact ⟨hrung.quiet move.hooks_journal.1 move.hooks_journal.2,
      move.traced (hrung.idle hidle) hpasses, move.clocks hpasses hclocks⟩

theorem exists_clocked (hs : s.hooks.Observing) (hidle : s.hooks.idle = false) (nodes : List Node)
    (n : Nat) : ∃ log, Clocked s log ((enter s nodes).advance n).state := by
  have hpasses : ∀ traced ∈ (enter s nodes).moment.passes, traced = true := by
    show ∀ traced ∈ [!s.hooks.idle], traced = true
    rw [hidle]
    exact List.forall_mem_singleton.2 rfl
  obtain ⟨log, harrives⟩ := (enter s nodes).exists_arrives n
  refine ⟨log, ?_⟩
  generalize (enter s nodes).advance n = r at harrives ⊢
  cases r with
  | running d =>
    have path : (enter s nodes).Leads log d.state d.moment := harrives
    exact (path.clocks hs hidle hpasses).2.2
  | finished t =>
    obtain ⟨traced, path⟩ := harrives
    exact (path.clocks hs hidle hpasses).2.2
  | halted h =>
    obtain ⟨m, halts⟩ := harrives
    cases halts with
    | @stopped _ t m _ path move =>
      have hclocks := (path.clocks hs hidle hpasses).2.2
      show Clocked s log h.state
      obtain ⟨sink, -, hstate⟩ := move.exists_state_eq
      rw [hstate]
      -- a statement stops execution only where it is to take effect
      have hclocked : Clocked s log t := by cases move <;> exact hclocks
      exact hclocked.quiet rfl rfl rfl
    | refused path move error =>
      obtain ⟨t, ht, -⟩ := Interp.exists_announce (path.clocks hs hidle hpasses).1.observing _
      cases error.symm.trans ht

end Config

/-! ## Runs and executions -/

namespace Interp

variable {s : Interp L}

/-- An announcement outside of the start of a statement. -/
theorem exists_clocked_announce (hs : s.hooks.Observing) {n : Notice} (other : ¬n.Starting) :
    ∃ t, s.announce n = .ok t ∧ Clocked s [⟨n, s, none, []⟩] t := by
  obtain ⟨t, ht, -⟩ := exists_announce hs n
  exact ⟨t, ht, Clocked.none.other other ht none []⟩

theorem exists_clocked_verdict {r : Progress L} (h : r.state.hooks.Observing) :
    ∃ log, Clocked r.state log r.verdict.state := by
  cases r with
  | running c => exact ⟨[], .none⟩
  | finished t =>
    obtain ⟨u, hu, hclocked⟩ := exists_clocked_announce h (show ¬Notice.ended.Starting from id)
    rw [Progress.verdict, conclude, show t.announce .ended = .ok u from hu]
    exact ⟨_, hclocked.quiet rfl rfl rfl⟩
  | halted halt =>
    rw [Progress.verdict]
    cases hr : halt.reported with
    | none =>
      rw [report_of_reported_none hr]
      exact ⟨[], .none⟩
    | some f =>
      obtain ⟨u, hu, hclocked⟩ :=
        exists_clocked_announce h (show ¬(Notice.failed f).Starting from id)
      rw [report_of_reported hr, show halt.state.announce (.failed f) = .ok u from hu]
      exact ⟨_, hclocked⟩

theorem exists_clocked_run (hs : s.hooks.Observing) (hidle : s.hooks.idle = false) (fuel : Nat)
    (tape : Tape) : ∃ log, Clocked s log (s.run fuel tape).state := by
  cases hp : s.parse with
  | error e =>
    rw [run, hp]
    exact ⟨[], .none⟩
  | ok p =>
    have hload : Clocked s [] (s.load p tape) := Clocked.none.quiet rfl rfl rfl
    obtain ⟨t, ht, hstarted⟩ :=
      exists_clocked_announce (hload.rung hs).observing (show ¬Notice.started.Starting from id)
    have hbegun := hload.trans hstarted
    have hrung := hbegun.rung hs
    have hbegin : s.begin p tape = .ok (Config.enter t t.program) := by rw [begin, ht]
    obtain ⟨log, hexecuted⟩ :=
      Config.exists_clocked hrung.observing (hrung.idle hidle) t.program fuel
    obtain ⟨log', hended⟩ := exists_clocked_verdict (hexecuted.rung hrung.observing).observing
    rw [run_of_begin hp hbegin]
    exact ⟨_, (hbegun.trans hexecuted).trans hended⟩

theorem exists_clocked_execute (hs : s.hooks.Observing) (hidle : s.hooks.idle = false) (fuel : Nat)
    (nodes : List Node) (times : Nat) :
    ∃ log, Clocked s log (s.execute fuel nodes times).state := by
  induction times generalizing s with
  | zero => exact ⟨[], .none⟩
  | succ times ih =>
    obtain ⟨log, hexecuted⟩ := Config.exists_clocked hs hidle nodes fuel
    rw [execute]
    cases hr : (Config.enter s nodes).advance fuel with
    | finished t =>
      rw [hr] at hexecuted
      have hrung := hexecuted.rung hs
      obtain ⟨log', hrest⟩ := ih hrung.observing (hrung.idle hidle)
      exact ⟨_, hexecuted.trans hrest⟩
    | running | halted =>
      rw [hr] at hexecuted
      exact ⟨log, hexecuted⟩

theorem exists_clocked_after (hs : s.hooks.Observing) (hidle : s.hooks.idle = false) (d : Deed) :
    ∃ log, Clocked s log (s.after d) := by
  cases d with
  | run fuel tape => exact exists_clocked_run hs hidle fuel tape
  | execute fuel lent nodes times =>
    have hdone (t : Interp L) (ht : t.hooks = s.hooks) (h : Clocked s [] t) :
        ∃ log, Clocked s log (t.execute fuel nodes times).state.giveBack := by
      obtain ⟨log, hexecuted⟩ := exists_clocked_execute (ht ▸ hs) (ht ▸ hidle) fuel nodes times
      exact ⟨_, (h.trans hexecuted).quiet rfl rfl rfl⟩
    rw [after]
    split
    · exact hdone _ rfl (Clocked.none.quiet rfl rfl rfl)
    · exact hdone s rfl .none
  | push | replace => exact ⟨[], Clocked.none.quiet rfl rfl rfl⟩

/-- All that is done with an interpreter is clocked. -/
theorem exists_clocked_afterAll (hs : s.hooks.Observing) (hidle : s.hooks.idle = false)
    (deeds : List Deed) : ∃ log, Clocked s log (s.afterAll deeds) := by
  induction deeds generalizing s with
  | nil => exact ⟨[], .none⟩
  | cons d rest ih =>
    obtain ⟨log, hfirst⟩ := exists_clocked_after hs hidle d
    have hrung := hfirst.rung hs
    obtain ⟨log', hrest⟩ := ih hrung.observing (hrung.idle hidle)
    exact ⟨log ++ log', hfirst.trans hrest⟩

end Interp

/-! ## What a listener hears -/

section Places

variable {log log' : List (Announcement L)} {i : Nat}

omit [Listener L] in
/-- Of the entries of a list, one has a given place. -/
theorem filter_zipIdx {α : Type} (p : α → Bool) {xs : List α} {x : α} (h : xs[i]? = some x) :
    xs.zipIdx.filter (fun e => decide (e.2 = i) && p e.1) = if p x then [(x, i)] else [] := by
  have key : ∀ k, (xs.zipIdx k).filter (fun e => decide (e.2 = k + i) && p e.1) =
      if p x then [(x, k + i)] else [] := by
    induction xs generalizing i with
    | nil => cases h
    | cons y ys ih =>
      intro k
      cases i with
      | zero =>
        obtain rfl := Option.some.inj h
        have hrest : (ys.zipIdx (k + 1)).filter (fun e => decide (e.2 = k) && p e.1) = [] := by
          refine List.filter_eq_nil_iff.2 fun e he => ?_
          have hle : k + 1 ≤ e.2 := List.le_snd_of_mem_zipIdx he
          rw [decide_eq_false (by omega), Bool.false_and]
          exact Bool.false_ne_true
        simp [List.zipIdx_cons, List.filter_cons, hrest]
      | succ i =>
        have hrest := ih h (k + 1)
        rw [Nat.add_assoc, Nat.add_comm 1 i] at hrest
        rw [List.zipIdx_cons, List.filter_cons_of_neg (by simp), hrest]
  have hzero := key 0
  rwa [Nat.zero_add] at hzero

/-- The notices for which the listener at a place is called, in order. -/
def noticesAt (i : Nat) (log : List (Announcement L)) : List Notice :=
  ((log.flatMap Announcement.rings).filter fun ring => ring.1 = i).map fun ring => ring.2.notice

omit [Listener L] in
theorem noticesAt_append (i : Nat) (log log' : List (Announcement L)) :
    noticesAt i (log ++ log') = noticesAt i log ++ noticesAt i log' := by
  simp [noticesAt]

omit [Listener L] in
/-- An announcement is for the listener at a place or not. -/
theorem noticesAt_singleton {a : Announcement L} {tr : Trigger} {l : L}
    (h : a.state.hooks.registered[i]? = some (tr, l)) :
    noticesAt i [a] = if tr.Answers a.notice.signal then [a.notice] else [] := by
  rw [noticesAt, List.flatMap_singleton, Announcement.rings, List.filter_map, Hooks.audience,
    List.filter_filter]
  have hfilter := filter_zipIdx (fun e => decide (e.1.Answers a.notice.signal)) h
  show ((a.state.hooks.registered.zipIdx.filter fun e =>
    decide (e.2 = i) && decide (e.1.1.Answers a.notice.signal)).map _).map _ = _
  rw [hfilter]
  by_cases hanswers : tr.Answers a.notice.signal <;> simp [hanswers]

/-- On the way from one count to another, a periodic listener is called for the multiples of its
interval in between, each once and in ascending order. -/
theorem Clocked.noticesAt_eq {s t : Interp L} {interval : Nat} {pos : 0 < interval} {l : L}
    (h : Clocked s log t)
    (hplace : ∀ a ∈ log, a.state.hooks.registered[i]? = some (.every interval pos, l)) :
    s.steps ≤ t.steps ∧ noticesAt i log =
      ((List.range' (s.steps + 1) (t.steps - s.steps)).filter (interval ∣ ·)).map
        fun count => .tick count := by
  induction h with
  | none => simp [noticesAt]
  | quiet earlier hooks journal steps ih => exact steps ▸ ih hplace
  | @other log t u earlier n other ok statement loops ih =>
    obtain ⟨hbefore, hlast⟩ := List.forall_mem_append.1 hplace
    have hlast := hlast _ (List.mem_singleton_self _)
    have hdeaf : ¬(Trigger.every interval pos).Answers n.signal := by
      intro hanswers
      cases n with
      | before | tick => exact other trivial
      | _ => exact hanswers
    rw [(Interp.heard_of_announce_ok ok).steps, noticesAt_append,
      noticesAt_singleton hlast, if_neg hdeaf, List.append_nil]
    exact ih hbefore
  | @start log d earlier n rest t u next before tick alike effect ih =>
    obtain ⟨hbefore, hlast⟩ := List.forall_mem_append.1 hplace
    obtain ⟨hle, hnotices⟩ := ih hbefore
    obtain ⟨hfirst, hsecond⟩ := List.forall_mem_cons.1 hlast
    have hsecond := List.forall_mem_singleton.1 hsecond
    have hsteps : u.steps = d.state.steps + 1 := alike.steps
    have hdeaf : ¬(Trigger.every interval pos).Answers (Notice.before n).signal := id
    have hdivides : (Trigger.every interval pos).Answers
        (Notice.tick (d.state.steps + 1 : Nat)).signal ↔ interval ∣ d.state.steps + 1 :=
      Int.natCast_dvd_natCast
    have hlength : d.state.steps + 1 - s.steps = d.state.steps - s.steps + 1 := Nat.succ_sub hle
    have hcount : s.steps + 1 + (d.state.steps - s.steps) = d.state.steps + 1 := by omega
    refine ⟨hsteps ▸ Nat.le_succ_of_le hle, ?_⟩
    rw [List.append_cons, noticesAt_append, noticesAt_append, noticesAt_singleton hfirst,
      noticesAt_singleton hsecond, if_neg hdeaf, List.append_nil, hnotices, hsteps, hlength,
      List.range'_1_concat, hcount, List.filter_append, List.map_append]
    by_cases h : interval ∣ d.state.steps + 1
    · rw [if_pos (hdivides.2 h), List.filter_cons_of_pos (by simpa using h)]
      rfl
    · rw [if_neg (mt hdivides.1 h), List.filter_cons_of_neg (by simpa using h)]
      rfl

end Places

/-- Over all that is done with an interpreter whose listeners take no action, a periodic one among
them is called for exactly the multiples of its interval among the counts that are reached, each
once and in ascending order. Every count is announced behind the announcement of its statement and
before the statement takes effect, and every announcement calls those whom it is for in the order in
which they have registered. -/
theorem Interp.calls_afterAll (s : Interp L) (hs : s.hooks.Observing)
    (hperiodic : ∃ interval pos l, (Trigger.every interval pos, l) ∈ s.hooks.registered)
    (deeds : List Deed) :
    let t := s.afterAll deeds
    ∃ log : List (Announcement L), Clocked s log t ∧
      t.journal.toList = s.journal.toList ++ (log.flatMap Announcement.rings).map Prod.snd ∧
      (∀ a ∈ log, a.state.hooks.registered = s.hooks.registered) ∧
      ∀ (i interval : Nat) (pos : 0 < interval) (l : L),
        s.hooks.registered[i]? = some (.every interval pos, l) → noticesAt i log =
          ((List.range' (s.steps + 1) (t.steps - s.steps)).filter (interval ∣ ·)).map
            fun count => .tick count := by
  intro t
  have hidle : s.hooks.idle = false := by
    obtain ⟨interval, pos, l, hmem⟩ := hperiodic
    exact Hooks.idle_eq_false_iff.2 ⟨_, hmem, rfl⟩
  obtain ⟨log, hclocked⟩ := exists_clocked_afterAll hs hidle deeds
  have hrung := hclocked.rung hs
  refine ⟨log, hclocked, hrung.journal, hrung.places, fun i interval pos l hplace => ?_⟩
  exact (hclocked.noticesAt_eq fun a ha => (hrung.places a ha) ▸ hplace).2

open Evaluation in
/-- A run that fails at its second statement and an execution that goes once through a loop start
six statements. Over both, listeners to every second and to every third hear all that is due. -/
theorem Interp.calls_afterAll_failed_run :
    let a : Script := .mk "a" none []
    let b : Script := .mk "b" none []
    let s : Interp Script := {
      source := "+,", file := "a",
      hooks := #[⟨.every 2 (by decide), a, 0⟩, ⟨.on .beforeInstruction, b, 0⟩,
        ⟨.every 3 (by decide), a, 0⟩] }
    let tape : Tape := ⟨2, Vector.replicate 2 0, 1⟩
    let place : Location := ⟨"b", 1, 2, "+[-]"⟩
    let deeds : List Deed :=
      [.run 9 tape, .execute 9 none [.op .increment none, .loop place [.op .decrement none]] 1]
    let t := s.afterAll deeds
    s.hooks.Observing ∧ t.steps = 6 ∧ ∃ log : List (Announcement Script), Clocked s log t ∧
      t.journal.toList = (log.flatMap Announcement.rings).map Prod.snd ∧
      noticesAt 0 log = [.tick 2, .tick 4, .tick 6] ∧ noticesAt 2 log = [.tick 3, .tick 6] := by
  intro a b s tape place deeds t
  have hs : s.hooks.Observing := by
    simp [s, a, b, Hooks.Observing, Listener.react, Script.actions]
  have htokens : Source.ofText "+," "a" =
      ⟨#[⟨.op .increment, 1, 1⟩, ⟨.op .input, 1, 2⟩, ⟨.finish, 1, 3⟩], "a", #["+,"]⟩ := rfl
  let p : Program :=
    ⟨[.op .increment (some ⟨"a", 1, 1, "+,"⟩), .op .input (some ⟨"a", 1, 2, "+,"⟩)],
      ⟨"a", 1, 3, "+,"⟩⟩
  have hp : s.parse = .ok p := by
    rw [Interp.parse, Program.parse, htokens]
    exact Program.ofSource_eq_ok_iff.2 ⟨by decide, .op rfl (.op rfl (.nil _ _)),
      by simp [p, Node.depth, Program.maxNesting], rfl⟩
  have hsteps : t.steps = 6 := by
    show ((s.run 9 tape).state.after (.execute 9 none _ 1)).steps = 6
    rw [run, hp]
    simp [s, a, b, tape, p, Interp.after, Verdict.state]
  obtain ⟨log, hclocked, hjournal, -, hnotices⟩ :=
    calls_afterAll s hs ⟨2, by decide, a, List.mem_cons_self⟩ deeds
  have hcount : (s.afterAll deeds).steps = 6 := hsteps
  rw [hcount] at hnotices
  have htwos : (List.range' 1 6).filter (2 ∣ ·) = [2, 4, 6] := by decide
  have hthrees : (List.range' 1 6).filter (3 ∣ ·) = [3, 6] := by decide
  refine ⟨hs, hsteps, log, hclocked, hjournal, ?_, ?_⟩
  · refine (hnotices 0 2 (by decide) a rfl).trans ?_
    show ((List.range' 1 6).filter (2 ∣ ·)).map _ = _
    rw [htwos]
    rfl
  · refine (hnotices 2 3 (by decide) a rfl).trans ?_
    show ((List.range' 1 6).filter (3 ∣ ·)).map _ = _
    rw [hthrees]
    rfl

end TapeLang
