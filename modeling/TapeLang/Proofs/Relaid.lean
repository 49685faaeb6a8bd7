import Mathlib.Data.List.Forall2
import Mathlib.Data.Option.Basic
import TapeLang.Proofs.Ending
import TapeLang.Proofs.Rounds

/-!
# The same program laid out differently

Two programs of one shape may stand at different places of different texts. Places take part in
what is said about a run: in locations, in statements quoted from the text, in the names of frames.
They take no part in what a run does, as long as no listener asks for them. Two interpreters that
differ in places only stay so, step by step, and come to the same end.
-/

namespace TapeLang

/-! ## Programs, frames and faults -/

/-- The same statements at other places. Where the one place is known, so is the other. -/
inductive Node.Relaid : List Node → List Node → Prop where
  | nil : Relaid [] []
  | op {o : Op} {l l' : Option Location} {as bs : List Node} (known : l.isSome = l'.isSome)
      (rest : Relaid as bs) : Relaid (.op o l :: as) (.op o l' :: bs)
  | loop {l l' : Location} {body body' as bs : List Node} (inside : Relaid body body')
      (rest : Relaid as bs) : Relaid (.loop l body :: as) (.loop l' body' :: bs)
  | bare {l l' : Option Location} {as bs : List Node} (known : l.isSome = l'.isSome)
      (rest : Relaid as bs) : Relaid (.bare l :: as) (.bare l' :: bs)

namespace Node.Relaid

variable {n n' : Node} {as as' bs bs' : List Node}

theorem refl (as : List Node) : Relaid as as := by
  fun_induction Node.written as with
  | case1 => exact .nil
  | case2 o l rest ih => exact .op rfl ih
  | case3 l body rest ihBody ihRest => exact .loop ihBody ihRest
  | case4 l rest ih => exact .bare rfl ih

theorem append (h : Relaid as as') (h' : Relaid bs bs') : Relaid (as ++ bs) (as' ++ bs') := by
  induction h with
  | nil => exact h'
  | op known _ ih => exact .op known ih
  | loop inside _ _ ih => exact .loop inside ih
  | bare known _ ih => exact .bare known ih

/-- The first statements are the same at other places, and so are the others. -/
theorem head (h : Relaid (n :: as) (n' :: as')) : Relaid [n] [n'] := by
  cases h with
  | op known => exact .op known .nil
  | loop inside => exact .loop inside .nil
  | bare known => exact .bare known .nil

/-- A statement is written as the same character. -/
theorem symbol_eq (h : Relaid [n] [n']) : n.symbol = n'.symbol := by
  cases h <;> rfl

theorem isSome_location (h : Relaid [n] [n']) : n.location.isSome = n'.location.isSome := by
  cases h with
  | op known => exact known
  | loop => rfl
  | bare known => exact known

end Node.Relaid

/-- The same frame at another place. It is called the same, or both are called after the loops whose
frames they are. -/
structure Frame.Relaid (f g : Frame) : Prop where
  named : f.name = g.name ∨
    ∃ l l', f.home = some l ∧ g.home = some l' ∧ f.name = (Frame.ofLoop l).name ∧
      g.name = (Frame.ofLoop l').name
  home : f.home.isSome = g.home.isSome
  current : Option.Rel (fun n n' => Node.Relaid [n] [n']) f.current g.current

theorem Frame.Relaid.isSome_position {f g : Frame} (h : f.Relaid g) :
    f.position.isSome = g.position.isSome := by
  obtain ⟨name, home, current⟩ := f
  obtain ⟨name', home', current'⟩ := g
  obtain ⟨-, hhome, hcurrent⟩ := h
  cases hcurrent with
  | none => exact hhome
  | some hn => exact hn.isSome_location

theorem Frame.Relaid.symbol_eq {f g : Frame} (h : f.Relaid g) :
    f.current.map Node.symbol = g.current.map Node.symbol := by
  have hcurrent := h.current
  generalize f.current = n at hcurrent ⊢
  generalize g.current = n' at hcurrent ⊢
  cases hcurrent with
  | none => rfl
  | some hn => exact congrArg some hn.symbol_eq

theorem Frame.relaid_ofLoop (l l' : Location) : (Frame.ofLoop l).Relaid (Frame.ofLoop l') :=
  ⟨.inr ⟨l, l', rfl, rfl, rfl, rfl⟩, rfl, .none⟩

/-- The same fault, placed differently. -/
structure Fault.Relaid (f g : Fault) : Prop where
  kind : f.kind = g.kind
  message : f.message = g.message
  rule : f.rule = g.rule
  location : f.location.isSome = g.location.isSome
  step : f.step = g.step
  cause : f.cause = g.cause

theorem Fault.Relaid.refl (f : Fault) : f.Relaid f := ⟨rfl, rfl, rfl, rfl, rfl, rfl⟩

/-- The same reason to stop, up to the place of a fault. -/
inductive Stop.Relaid : Stop → Stop → Prop where
  | fault {f g : Fault} (h : f.Relaid g) : Relaid (.fault f) (.fault g)
  | failure (f : Failure) : Relaid (.failure f) (.failure f)
  | exit (code : Int) : Relaid (.exit code) (.exit code)
  | interrupt (text : String) : Relaid (.interrupt text) (.interrupt text)
  | quit (kind text : String) : Relaid (.quit kind text) (.quit kind text)

theorem Stop.Relaid.refl (stop : Stop) : stop.Relaid stop := by
  cases stop with
  | fault f => exact .fault (.refl f)
  | failure f => exact .failure f
  | exit code => exact .exit code
  | interrupt text => exact .interrupt text
  | quit kind text => exact .quit kind text

/-! ## What listeners are told -/

/-- The same notice about the same statement at another place. -/
inductive Notice.Relaid : Notice → Notice → Prop where
  | started : Relaid .started .started
  | ended : Relaid .ended .ended
  | before {n n' : Node} (h : Node.Relaid [n] [n']) : Relaid (.before n) (.before n')
  | after {n n' : Node} (h : Node.Relaid [n] [n']) : Relaid (.after n) (.after n')
  | entered {n n' : Node} (h : Node.Relaid [n] [n']) : Relaid (.entered n) (.entered n')
  | left {n n' : Node} (h : Node.Relaid [n] [n']) : Relaid (.left n) (.left n')
  | failed {f g : Fault} (h : f.Relaid g) : Relaid (.failed f) (.failed g)
  | tick (count : Int) : Relaid (.tick count) (.tick count)
  | bare (e : Event) : Relaid (.bare e) (.bare e)

theorem Notice.Relaid.signal_eq {n n' : Notice} (h : n.Relaid n') : n.signal = n'.signal := by
  cases h <;> rfl

theorem Notice.Relaid.subject_eq {n n' : Notice} (h : n.Relaid n') : n.subject = n'.subject := by
  rw [subject, subject, h.signal_eq]

/-- The same scene, with the frames at other places. -/
structure Scene.Relaid (c c' : Scene) : Prop where
  steps : c.steps = c'.steps
  stack : List.Forall₂ Frame.Relaid c.stack c'.stack
  tape : c.tape = c'.tape

variable {L : Type}

/-! ## Interpreters -/

/-- Two interpreters differ in their texts and in places at most, and in the record of the calls. -/
structure Interp.Relaid (s t : Interp L) : Prop where
  steps : s.steps = t.steps
  stack : List.Forall₂ Frame.Relaid s.stack t.stack
  tape : s.tape = t.tape
  bench : s.bench = t.bench
  program : Node.Relaid s.program t.program
  hooks : s.hooks = t.hooks
  sink : s.sink = t.sink
  reports : s.reports = t.reports

/-- Two refusals for the same reason, at whatever places. -/
inductive ParseError.Relaid : ParseError → ParseError → Prop where
  | notClosed {file file' : String} {line line' column column' : Int} :
      Relaid (.notClosed file line column) (.notClosed file' line' column')
  | tooDeep {file file' : String} : Relaid (.tooDeep file) (.tooDeep file')

/-- Two runs turned out the same, up to places. -/
inductive Verdict.Relaid : Verdict L → Verdict L → Prop where
  | unparsed {e e' : ParseError} {s t : Interp L} (errors : e.Relaid e') (states : s.Relaid t) :
      Relaid (.unparsed e s) (.unparsed e' t)
  | finished {s t : Interp L} (states : s.Relaid t) : Relaid (.finished s) (.finished t)
  | stopped {stop stop' : Stop} {s t : Interp L} (stops : stop.Relaid stop')
      (states : s.Relaid t) : Relaid (.stopped ⟨stop, s⟩) (.stopped ⟨stop', t⟩)
  | unfinished {c d : Config L} (states : c.state.Relaid d.state) :
      Relaid (.unfinished c) (.unfinished d)

theorem Verdict.Relaid.settled_iff {v w : Verdict L} (h : v.Relaid w) : v.Settled ↔ w.Settled := by
  cases h <;> exact Iff.rfl

namespace Interp.Relaid

variable {s t : Interp L}

theorem cell_eq (h : s.Relaid t) : s.cell = t.cell := by
  rw [cell, cell, work, work, h.tape, h.bench]

theorem isSome_position (h : s.Relaid t) : s.position.isSome = t.position.isSome := by
  have hstack := h.stack
  rw [position, position]
  cases hs : s.stack with
  | nil =>
    rw [hs, List.forall₂_nil_left_iff] at hstack
    rw [hstack]
  | cons f rest =>
    rw [hs] at hstack
    obtain ⟨g, rest', hfg, -, ht⟩ := List.forall₂_cons_left_iff.1 hstack
    rw [ht]
    exact hfg.isSome_position

/-- The frames are at statements that are written alike. -/
theorem symbols_eq (h : s.Relaid t) :
    s.stack.map (fun f => f.current.map Node.symbol) =
      t.stack.map fun f => f.current.map Node.symbol := by
  have hstack := h.stack
  generalize s.stack = fs at hstack ⊢
  generalize t.stack = gs at hstack ⊢
  induction hstack with
  | nil => rfl
  | cons hf _ ih => rw [List.map_cons, List.map_cons, hf.symbol_eq, ih]

theorem wrap (h : s.Relaid t) (f : Failure) : (s.wrap f).Relaid (t.wrap f) :=
  ⟨rfl, rfl, rfl, h.isSome_position, rfl, rfl⟩

end Interp.Relaid

section Listening

variable [Listener L]

/-- The listener does the same whatever places it sees, and it brings in no other listener. -/
structure Listener.Placeless (l : L) : Prop where
  react : ∀ (k : Nat) {n n' : Notice} {c c' : Scene}, n.Relaid n' → c.Relaid c' →
    Listener.react l k n c = Listener.react l k n' c'
  alone : ∀ (k : Nat) (n : Notice) (c : Scene) (r : Request) (l' : L),
    Action.subscribe r l' ∉ Listener.react l k n c

/-- No listener asks for places. -/
def Hooks.Placeless (hooks : Hooks L) : Prop := ∀ sub ∈ hooks, Listener.Placeless sub.listener

theorem Hooks.placeless_empty : Hooks.Placeless (#[] : Hooks L) := fun _ h => by simp at h

/-- Counting a call changes no listener. -/
theorem Hooks.Placeless.count {hooks : Hooks L} (h : hooks.Placeless) (i : Nat) :
    (hooks.count i).Placeless := by
  intro sub hsub
  obtain ⟨k, hk, rfl⟩ := Array.mem_iff_getElem.1 hsub
  have hk' : k < hooks.size := by simpa [Hooks.count] using hk
  have hsame : (hooks.count i)[k].listener = hooks[k].listener := by
    simp only [Hooks.count, Array.getElem_modify]
    split <;> rfl
  rw [hsame]
  exact h _ (Array.getElem_mem hk')

namespace Interp

/-- Two interpreters differ in places at most, and no listener asks for them. -/
structure Unplaced (s t : Interp L) : Prop extends s.Relaid t where
  placeless : s.hooks.Placeless

/-- Two parts of a run came to the same, up to places. -/
inductive Agree : Except (Halt L) (Interp L) → Except (Halt L) (Interp L) → Prop where
  | ok {s t : Interp L} (states : s.Unplaced t) : Agree (.ok s) (.ok t)
  | error {stop stop' : Stop} {s t : Interp L} (stops : stop.Relaid stop')
      (states : s.Unplaced t) : Agree (.error ⟨stop, s⟩) (.error ⟨stop', t⟩)

namespace Unplaced

variable {s t : Interp L}

/-! ### Rounds of calls -/

theorem alter (h : s.Unplaced t) (f : Tape → Tape) : (s.alter f).Unplaced (t.alter f) := by
  rw [Interp.alter, Interp.alter, ← h.bench]
  cases s.bench with
  | some tape =>
    exact ⟨⟨h.steps, h.stack, h.tape, rfl, h.program, h.hooks, h.sink, h.reports⟩, h.placeless⟩
  | none =>
    exact ⟨⟨h.steps, h.stack, congrArg (Option.map f) h.tape, rfl, h.program, h.hooks, h.sink,
      h.reports⟩, h.placeless⟩

/-- The sink takes a text from both or refuses it for the same reason. -/
theorem emit (h : s.Unplaced t) (text : String) : Agree (s.emit text) (t.emit text) := by
  rw [Interp.emit, Interp.emit, ← h.sink]
  cases s.sink.refusal s.sink.calls with
  | none =>
    exact .ok ⟨⟨h.steps, h.stack, h.tape, h.bench, h.program, h.hooks, rfl, h.reports⟩,
      h.placeless⟩
  | some stop =>
    exact .error (.refl stop) ⟨⟨h.steps, h.stack, h.tape, h.bench, h.program, h.hooks, rfl,
      h.reports⟩, h.placeless⟩

/-- Both carry out an action that brings in no listener. -/
theorem performAction (h : s.Unplaced t) {a : Action L} (ha : ∀ r l, a ≠ .subscribe r l) :
    Agree (s.perform a) (t.perform a) := by
  cases a with
  | fail | fault | exit | interrupt | quit => exact .error (.refl _) h
  | setCell i value =>
    exact .ok ⟨⟨h.steps, h.stack, congrArg (Option.map (Tape.write i value)) h.tape, h.bench,
      h.program, h.hooks, h.sink, h.reports⟩, h.placeless⟩
  | point i =>
    exact .ok ⟨⟨h.steps, h.stack, congrArg (Option.map (Tape.point i)) h.tape, h.bench, h.program,
      h.hooks, h.sink, h.reports⟩, h.placeless⟩
  | emit text => exact h.emit text
  | report line =>
    exact .ok ⟨⟨h.steps, h.stack, h.tape, h.bench, h.program, h.hooks, h.sink,
      congrArg (Array.push · line) h.reports⟩, h.placeless⟩
  | subscribe r l => exact absurd rfl (ha r l)
  | append nodes =>
    exact .ok ⟨⟨h.steps, h.stack, h.tape, h.bench, h.program.append (.refl nodes), h.hooks, h.sink,
      h.reports⟩, h.placeless⟩

theorem performAll (h : s.Unplaced t) {as : List (Action L)}
    (ha : ∀ r l, Action.subscribe r l ∉ as) : Agree (s.performAll as) (t.performAll as) := by
  induction as generalizing s t with
  | nil => exact .ok h
  | cons a rest ih =>
    have hfirst : ∀ r l, a ≠ .subscribe r l := by
      rintro r l rfl
      exact ha r l List.mem_cons_self
    have hperform := h.performAction hfirst
    rw [Interp.performAll, Interp.performAll]
    generalize s.perform a = r at hperform ⊢
    generalize t.perform a = r' at hperform ⊢
    cases hperform with
    | ok h' => exact ih h' fun r l hmem => ha r l (List.mem_cons_of_mem a hmem)
    | error hstop h' => exact .error hstop h'

theorem scene (h : s.Unplaced t) : s.scene.Relaid t.scene := ⟨h.steps, h.stack, h.tape⟩

theorem noteCall (h : s.Unplaced t) (i : Nat) (l : L) (n n' : Notice) :
    (s.noteCall i l n).Unplaced (t.noteCall i l n') :=
  ⟨⟨h.steps, h.stack, h.tape, h.bench, h.program, congrArg (Hooks.count · i) h.hooks, h.sink,
    h.reports⟩, h.placeless.count i⟩

/-- A listener that is called does the same on both sides. -/
theorem callListener (h : s.Unplaced t) {n n' : Notice} (hn : n.Relaid n') (i : Nat)
    {sub : Subscription L} (hsub : sub ∈ s.hooks) :
    Agree (s.callListener i sub n) (t.callListener i sub n') := by
  have hl := h.placeless sub hsub
  rw [Interp.callListener, Interp.callListener, ← hl.react _ hn h.scene]
  exact (h.noteCall i sub.listener n n').performAll (hl.alone _ _ _)

/-- The same subscriptions are made on both sides. -/
theorem exists_subscription (h : s.Unplaced t) {i : Nat} (hi : i < s.hooks.size) :
    ∃ hit : i < t.hooks.size, t.hooks[i] = s.hooks[i] :=
  ⟨h.hooks ▸ hi, by simp only [h.hooks]⟩

/-- A round of calls goes the same way on both sides. -/
theorem roundFrom (h : s.Unplaced t) {n n' : Notice} (hn : n.Relaid n') (i : Nat) :
    Agree (s.roundFrom n i) (t.roundFrom n' i) := by
  fun_induction Interp.roundFrom s n i generalizing t with
  | case1 s i hi hears s' hcalled ih =>
    have hcall := h.callListener hn i (Array.getElem_mem hi)
    obtain ⟨hit, hsub⟩ := h.exists_subscription hi
    rw [roundFrom_of_hears hit (by rwa [hsub, ← hn.signal_eq]), hsub]
    rw [hcalled] at hcall
    generalize t.callListener i s.hooks[i] n' = r at hcall ⊢
    cases hcall with
    | ok h' => exact ih h'
  | case2 s i hi hears halt hcalled =>
    have hcall := h.callListener hn i (Array.getElem_mem hi)
    obtain ⟨hit, hsub⟩ := h.exists_subscription hi
    rw [roundFrom_of_hears hit (by rwa [hsub, ← hn.signal_eq]), hsub]
    rw [hcalled] at hcall
    generalize t.callListener i s.hooks[i] n' = r at hcall ⊢
    cases hcall with
    | error hstop h' => exact .error hstop h'
  | case3 s i hi hears ih =>
    obtain ⟨hit, hsub⟩ := h.exists_subscription hi
    rw [roundFrom_of_deaf hit (by rwa [hsub, ← hn.signal_eq])]
    exact ih h
  | case4 s i hi =>
    rw [roundFrom_end (h.hooks ▸ hi)]
    exact .ok h

/-- An announcement comes to the same on both sides. -/
theorem announce (h : s.Unplaced t) {n n' : Notice} (hn : n.Relaid n') :
    Agree (s.announce n) (t.announce n') := by
  have hround := h.roundFrom hn 0
  rw [Interp.announce, Interp.announce, round, round]
  generalize s.roundFrom n 0 = r at hround ⊢
  generalize t.roundFrom n' 0 = r' at hround ⊢
  cases hround with
  | ok h' => exact .ok h'
  | error hstop h' =>
    cases hstop with
    | fault hf => exact .error (.fault hf) h'
    | failure f =>
      rw [hn.subject_eq]
      exact .error (.fault ⟨rfl, rfl, rfl, h'.isSome_position, rfl, rfl⟩) h'
    | exit code => exact .error (.exit code) h'
    | interrupt text => exact .error (.interrupt text) h'
    | quit kind text => exact .error (.quit kind text) h'

theorem announceBefore (h : s.Unplaced t) {n n' : Node} (hn : Node.Relaid [n] [n'])
    (traced : Bool) : Agree (s.announceBefore traced n) (t.announceBefore traced n') := by
  cases traced with
  | false => exact .ok h
  | true =>
    have hbefore := h.announce (.before hn)
    rw [Interp.announceBefore, Interp.announceBefore, if_pos rfl, if_pos rfl]
    generalize s.announce (.before n) = r at hbefore ⊢
    generalize t.announce (.before n') = r' at hbefore ⊢
    cases hbefore with
    | @ok s' t' h' =>
      simp only [h'.steps]
      exact h'.announce (.tick _)
    | error hstop h' => exact .error hstop h'

theorem announceAfter (h : s.Unplaced t) {n n' : Node} (hn : Node.Relaid [n] [n'])
    (traced : Bool) : Agree (s.announceAfter traced n) (t.announceAfter traced n') := by
  cases traced with
  | false => exact .ok h
  | true => exact h.announce (.after hn)

/-! ### What statements do -/

theorem start (h : s.Unplaced t) {n n' : Node} (hn : Node.Relaid [n] [n']) :
    (s.start n).Unplaced (t.start n') := by
  refine ⟨⟨congrArg (· + 1) h.steps, ?_, h.tape, h.bench, h.program, h.hooks, h.sink, h.reports⟩,
    h.placeless⟩
  have hstack := h.stack
  simp only [Interp.start, reach]
  generalize s.stack = fs at hstack ⊢
  generalize t.stack = gs at hstack ⊢
  cases hstack with
  | nil => exact .nil
  | cons hf hrest => exact .cons ⟨hf.named, hf.home, .some hn⟩ hrest

theorem push (h : s.Unplaced t) {f g : Frame} (hf : f.Relaid g) :
    (s.push f).Unplaced (t.push g) :=
  ⟨⟨h.steps, .cons hf h.stack, h.tape, h.bench, h.program, h.hooks, h.sink, h.reports⟩,
    h.placeless⟩

theorem pop (h : s.Unplaced t) : s.pop.Unplaced t.pop := by
  refine ⟨⟨h.steps, ?_, h.tape, h.bench, h.program, h.hooks, h.sink, h.reports⟩, h.placeless⟩
  have hstack := h.stack
  simp only [Interp.pop]
  generalize s.stack = fs at hstack ⊢
  generalize t.stack = gs at hstack ⊢
  cases hstack with
  | nil => exact .nil
  | cons _ hrest => exact hrest

theorem operate (h : s.Unplaced t) (o : Op) {l l' : Option Location}
    (known : l.isSome = l'.isSome) : Agree (s.operate o l) (t.operate o l') := by
  cases o with
  | left | right | increment | decrement => exact .ok (h.alter _)
  | output =>
    rw [Interp.operate, Interp.operate, h.cell_eq]
    exact h.emit _
  | input => exact .error (.fault ⟨rfl, rfl, rfl, known, rfl, rfl⟩) h

end Unplaced

end Interp

/-! ## Execution -/

/-- The same active loop at another place. -/
structure ActiveLoop.Relaid (l m : ActiveLoop) : Prop where
  body : Node.Relaid l.body m.body
  rest : Node.Relaid l.rest m.rest
  traced : l.traced = m.traced

theorem ActiveLoop.Relaid.node {l m : ActiveLoop} (h : l.Relaid m) :
    Node.Relaid [l.node] [m.node] := .loop h.body .nil

/-- Execution has got equally far, up to places. -/
structure Config.Unplaced (c d : Config L) : Prop where
  state : c.state.Unplaced d.state
  rest : Node.Relaid c.rest d.rest
  traced : c.traced = d.traced
  loops : List.Forall₂ ActiveLoop.Relaid c.loops d.loops

/-- Execution has led to the same, up to places. -/
inductive Progress.Unplaced : Progress L → Progress L → Prop where
  | running {c d : Config L} (configs : c.Unplaced d) : Unplaced (.running c) (.running d)
  | finished {s t : Interp L} (states : s.Unplaced t) : Unplaced (.finished s) (.finished t)
  | halted {stop stop' : Stop} {s t : Interp L} (stops : stop.Relaid stop')
      (states : s.Unplaced t) : Unplaced (.halted ⟨stop, s⟩) (.halted ⟨stop', t⟩)

namespace Config

variable {s t : Interp L} {l m : ActiveLoop} {outer outer' : List ActiveLoop}

/-- Execution goes on the same way from parts that came to the same. -/
theorem ofResult_unplaced {r r' : Except (Halt L) (Interp L)} (h : Interp.Agree r r')
    {next next' : Interp L → Config L}
    (hnext : ∀ {s t : Interp L}, s.Unplaced t → (next s).Unplaced (next' t)) :
    Progress.Unplaced (.ofResult r next) (.ofResult r' next') := by
  cases h with
  | ok h => exact .running (hnext h)
  | error hstop h => exact .halted hstop h

theorem leave_unplaced (h : s.Unplaced t) (hl : l.Relaid m)
    (ho : List.Forall₂ ActiveLoop.Relaid outer outer') :
    Progress.Unplaced (leave s l outer) (leave t m outer') := by
  have hleft := h.announce (.left hl.node)
  rw [leave, leave]
  generalize s.announce (.left l.node) = r at hleft ⊢
  generalize t.announce (.left m.node) = r' at hleft ⊢
  cases hleft with
  | ok h' =>
    simp only [hl.traced]
    exact ofResult_unplaced (h'.pop.announceAfter hl.node _) fun h => ⟨h, hl.rest, rfl, ho⟩
  | error hstop h' => exact .halted hstop h'

theorem turn_unplaced (h : s.Unplaced t) (hl : l.Relaid m)
    (ho : List.Forall₂ ActiveLoop.Relaid outer outer') :
    Progress.Unplaced (turn s l outer) (turn t m outer') := by
  rw [turn, turn, h.cell_eq]
  by_cases hz : t.cell = 0
  · rw [if_pos hz, if_pos hz]
    exact leave_unplaced h hl ho
  · rw [if_neg hz, if_neg hz, h.hooks]
    exact .running ⟨h, hl.body, rfl, .cons hl ho⟩

theorem descend_unplaced (h : s.Unplaced t) (hl : l.Relaid m)
    (ho : List.Forall₂ ActiveLoop.Relaid outer outer') :
    Progress.Unplaced (descend s l outer) (descend t m outer') := by
  rw [descend, descend, h.cell_eq, ho.length_eq]
  by_cases hz : t.cell = 0
  · rw [if_pos hz, if_pos hz, hl.traced]
    exact ofResult_unplaced (h.announceAfter hl.node _) fun h => ⟨h, hl.rest, rfl, ho⟩
  · rw [if_neg hz, if_neg hz]
    by_cases hdeep : maxActive ≤ outer'.length
    · rw [if_pos hdeep, if_pos hdeep]
      exact .halted (.failure _) h
    · rw [if_neg hdeep, if_neg hdeep]
      have hentered := (h.push (Frame.relaid_ofLoop l.location m.location)).announce
        (.entered hl.node)
      generalize (s.push (Frame.ofLoop l.location)).announce _ = r at hentered ⊢
      generalize (t.push (Frame.ofLoop m.location)).announce _ = r' at hentered ⊢
      cases hentered with
      | ok h' => exact turn_unplaced h' hl ho
      | error hstop h' => exact .halted hstop h'

/-- A statement takes the same effect wherever it stands. -/
theorem perform_unplaced (h : s.Unplaced t) {n n' : Node} {rest rest' : List Node}
    (hn : Node.Relaid (n :: rest) (n' :: rest')) (traced : Bool)
    (ho : List.Forall₂ ActiveLoop.Relaid outer outer') :
    Progress.Unplaced (perform s n rest traced outer) (perform t n' rest' traced outer') := by
  have hhead := hn.head
  cases hn with
  | @op o l l' _ _ known hrest =>
    have hoperate := h.operate o known
    rw [perform, perform]
    generalize s.operate o l = r at hoperate ⊢
    generalize t.operate o l' = r' at hoperate ⊢
    cases hoperate with
    | ok h' =>
      exact ofResult_unplaced (h'.announceAfter hhead traced) fun h => ⟨h, hrest, rfl, ho⟩
    | error hstop h' => exact .halted hstop h'
  | loop hbody hrest => exact descend_unplaced h ⟨hbody, hrest, rfl⟩ ho
  | bare known => exact .halted (.fault ⟨rfl, rfl, rfl, known, rfl, rfl⟩) h

/-- One step of execution leads to the same, up to places. -/
theorem step_unplaced {c d : Config L} (h : c.Unplaced d) : c.step.Unplaced d.step := by
  obtain ⟨s, rest, traced, loops⟩ := c
  obtain ⟨t, rest', traced', loops'⟩ := d
  obtain ⟨hstate, hrest, htraced, hloops⟩ := h
  simp only at hstate hrest htraced hloops
  subst htraced
  cases rest with
  | nil =>
    cases hrest
    cases hloops with
    | nil => exact .finished hstate
    | cons hl ho => exact turn_unplaced hstate hl ho
  | cons n rest =>
    obtain ⟨n', rest', rfl⟩ : ∃ n' ns, rest' = n' :: ns := by cases hrest <;> exact ⟨_, _, rfl⟩
    have hbefore := (hstate.start hrest.head).announceBefore hrest.head traced
    rw [step, step]
    generalize (s.start n).announceBefore traced n = r at hbefore ⊢
    generalize (t.start n').announceBefore traced n' = r' at hbefore ⊢
    cases hbefore with
    | ok h' => exact perform_unplaced h' hrest traced hloops
    | error hstop h' => exact .halted hstop h'

/-- Execution for any number of steps leads to the same, up to places. -/
theorem advance_unplaced {c d : Config L} (h : c.Unplaced d) (k : Nat) :
    (c.advance k).Unplaced (d.advance k) := by
  induction k generalizing c d with
  | zero => exact .running h
  | succ k ih =>
    rw [advance, advance]
    have hstep := step_unplaced h
    generalize c.step = q at hstep ⊢
    generalize d.step = r at hstep ⊢
    cases hstep with
    | running h => exact ih h
    | finished h => exact .finished h
    | halted hstop h => exact .halted hstop h

end Config

/-! ## Runs -/

namespace Interp.Unplaced

variable {s t : Interp L}

theorem load (h : s.Unplaced t) {p q : Program} (hp : Node.Relaid p.statements q.statements)
    (tape : Tape) : (s.load p tape).Unplaced (t.load q tape) :=
  ⟨⟨h.steps, .cons ⟨.inl rfl, rfl, .none⟩ .nil, rfl, rfl, hp, h.hooks, h.sink, h.reports⟩,
    h.placeless⟩

/-- A fault is announced and passed on alike. -/
theorem raise (h : s.Unplaced t) {f g : Fault} (hf : f.Relaid g) :
    ∃ stop stop' s' t', s.raise f = ⟨stop, s'⟩ ∧ t.raise g = ⟨stop', t'⟩ ∧ stop.Relaid stop' ∧
      s'.Unplaced t' := by
  have hnoted : Fault.Relaid { f with step := some s.steps } { g with step := some t.steps } :=
    ⟨hf.kind, hf.message, hf.rule, hf.location, congrArg some h.steps, hf.cause⟩
  have hannounce := h.announce (.failed hnoted)
  rw [Interp.raise, Interp.raise]
  generalize s.announce _ = r at hannounce ⊢
  generalize t.announce _ = r' at hannounce ⊢
  cases hannounce with
  | ok h' => exact ⟨_, _, _, _, rfl, rfl, .fault hnoted, h'⟩
  | error hstop h' => exact ⟨_, _, _, _, rfl, rfl, hstop, h'⟩

/-- A halt is reported alike. -/
theorem report (h : s.Unplaced t) {stop stop' : Stop} (hstop : stop.Relaid stop') :
    ∃ a b s' t', Interp.report ⟨stop, s⟩ = ⟨a, s'⟩ ∧ Interp.report ⟨stop', t⟩ = ⟨b, t'⟩ ∧
      a.Relaid b ∧ s'.Unplaced t' := by
  cases hstop with
  | fault hf => exact h.raise hf
  | failure f => exact h.raise (h.wrap f)
  | exit code => exact ⟨_, _, _, _, rfl, rfl, .exit code, h⟩
  | interrupt text => exact ⟨_, _, _, _, rfl, rfl, .interrupt text, h⟩
  | quit kind text => exact ⟨_, _, _, _, rfl, rfl, .quit kind text, h⟩

theorem conclude (h : s.Unplaced t) : s.conclude.Relaid t.conclude := by
  have hended := h.announce .ended
  rw [Interp.conclude, Interp.conclude]
  generalize s.announce .ended = r at hended ⊢
  generalize t.announce .ended = r' at hended ⊢
  cases hended with
  | ok h' => exact .finished h'.pop.toRelaid
  | error hstop h' => exact .stopped hstop h'.toRelaid

/-- Programs of one shape run alike, in as many steps. -/
theorem runProgram (h : s.Unplaced t) {p q : Program}
    (hp : Node.Relaid p.statements q.statements) (tape : Tape) (fuel : Nat) :
    (s.runProgram fuel p tape).Relaid (t.runProgram fuel q tape) := by
  have hstarted := (h.load hp tape).announce .started
  rw [Interp.runProgram, Interp.runProgram, begin, begin]
  generalize (s.load p tape).announce .started = r at hstarted ⊢
  generalize (t.load q tape).announce .started = r' at hstarted ⊢
  cases hstarted with
  | error hstop h' => exact .stopped hstop h'.toRelaid
  | @ok s' t' h' =>
    have hconfig : (Config.enter s' s'.program).Unplaced (Config.enter t' t'.program) :=
      ⟨h', h'.program, congrArg (fun hooks => !Hooks.idle hooks) h'.hooks, .nil⟩
    have hadvance := Config.advance_unplaced hconfig fuel
    simp only
    generalize (Config.enter s' s'.program).advance fuel = a at hadvance ⊢
    generalize (Config.enter t' t'.program).advance fuel = b at hadvance ⊢
    cases hadvance with
    | running hc => exact .unfinished hc.state.toRelaid
    | finished h => exact h.conclude
    | halted hstop h =>
      obtain ⟨_, _, _, _, hs, ht, hstops, hstates⟩ := h.report hstop
      simp only [hs, ht]
      exact .stopped hstops hstates.toRelaid

end Interp.Unplaced

end Listening

end TapeLang
