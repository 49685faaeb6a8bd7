import Mathlib.Data.List.Sigma
import TapeLang.Proofs.Ending
import TapeLang.Proofs.Walk
import TapeLang.Script

/-!
# Execution agrees with walking

Executing the statements of a program and walking over its code go in lock step: one step of
execution is one instruction of the walk. The configuration and the instruction pointer belong
together when the code from the pointer on is what the pass at hand has still to do, followed by
what the passes around it have still to do.
-/

namespace TapeLang

variable {L : Type}

/-! ## Configurations on the code -/

/-- What is left of the passes around the one at hand, as flat code. -/
def behindLoops : List ActiveLoop → List (Char × Option Location)
  | [] => []
  | l :: outer => (']', none) :: (Node.flat l.rest ++ behindLoops outer)

/-- Every active loop stands in the code where what is left around it says. -/
inductive Around (code : List (Char × Option Location)) : List ActiveLoop → Prop where
  | top : Around code []
  | loop {l : ActiveLoop} {outer : List ActiveLoop} (pre : List (Char × Option Location))
      (here : code = pre ++ (Node.flat (l.node :: l.rest) ++ behindLoops outer))
      (plain : Node.Plain (l.node :: l.rest))
      (shallow : Node.depth (l.node :: l.rest) + outer.length ≤ Config.maxActive)
      (around : Around code outer) : Around code (l :: outer)

/-- The pointer stands before the rest of the pass at hand, with the active loops around it. -/
structure Placed (code : List (Char × Option Location)) (ip : Nat) (rest : List Node)
    (loops : List ActiveLoop) : Prop where
  here : ∃ pre, pre.length = ip ∧ code = pre ++ (Node.flat rest ++ behindLoops loops)
  plain : Node.Plain rest
  shallow : Node.depth rest + loops.length ≤ Config.maxActive
  around : Around code loops

private theorem getElem?_of_split {α : Type} {code pre post : List α} {a : α}
    (h : code = pre ++ a :: post) : code[pre.length]? = some a := by
  rw [h, List.getElem?_append_right (Nat.le_refl _), Nat.sub_self, List.getElem?_cons_zero]

/-- The brackets around the flat form of a body are partners. -/
theorem Node.partners_flat {code pre post : List (Char × Option Location)} {place : Location}
    {body : List Node} (h : code = pre ++ ('[', some place) :: (flat body ++ (']', none) :: post)) :
    let stop := pre.length + 1 + (flat body).length
    (Text.brackets (code.map Prod.fst)).closing? ('[', pre.length) = some (']', stop) ∧
      (Text.brackets (code.map Prod.fst)).opening? (']', stop) = some ('[', pre.length) := by
  intro stop
  have hsplit : (code.map Prod.fst).zipIdx = (pre.map Prod.fst).zipIdx ++ ('[', pre.length) ::
      ((written body).zipIdx (pre.length + 1) ++
        (']', stop) :: (post.map Prod.fst).zipIdx (stop + 1)) := by
    simp only [h, stop, List.map_append, List.map_cons, List.zipIdx_append,
      List.zipIdx_cons, Nat.zero_add, List.length_map, ← map_fst_flat]
  have hdistinct : (code.map Prod.fst).zipIdx.Nodup :=
    (List.nodup_zipIdx_map_snd (code.map Prod.fst)).of_map Prod.snd
  obtain ⟨p, hp, ho, hc⟩ := (nested_written body (pre.length + 1)).exists_pair
    (a := ('[', pre.length)) (b := (']', stop)) (by simp [Text.kind]) (by simp [Text.kind]) {}
    (pre.map Prod.fst).zipIdx ((post.map Prod.fst).zipIdx (stop + 1))
  rw [← hsplit] at hp
  rw [← ho, ← hc]
  exact Brackets.partners_of_mem hdistinct hp

namespace Placed

variable {code : List (Char × Option Location)} {ip : Nat} {rest : List Node}
  {loops : List ActiveLoop}

/-- At the end of the program there is no code left. -/
theorem finish (h : Placed code ip [] []) : code[ip]? = none := by
  obtain ⟨pre, rfl, hcode⟩ := h.here
  rw [Node.flat, behindLoops, List.append_nil, List.append_nil] at hcode
  rw [hcode, List.getElem?_eq_none (Nat.le_refl _)]

/-- An operation is one instruction of the code. -/
theorem op {o : Op} {l : Option Location} (h : Placed code ip (.op o l :: rest) loops) :
    code[ip]? = some (o.symbol, l) ∧ Placed code (ip + 1) rest loops := by
  obtain ⟨⟨pre, rfl, hcode⟩, hplain, hshallow, haround⟩ := h
  rw [Node.flat, List.cons_append] at hcode
  rw [Node.Plain] at hplain
  rw [Node.depth] at hshallow
  refine ⟨getElem?_of_split hcode, ⟨pre ++ [(o.symbol, l)], ?_, ?_⟩, hplain, hshallow, haround⟩
  · rw [List.length_append, List.length_singleton]
  · rw [hcode, List.append_assoc, List.singleton_append]

/-- A loop begins with a bracket; its body follows, and the rest stands behind the partner. -/
theorem loop {place : Location} {body : List Node}
    (h : Placed code ip (.loop place body :: rest) loops) (traced : Bool) :
    code[ip]? = some ('[', some place) ∧ loops.length < Config.maxActive ∧
      Placed code (ip + 1) body (⟨place, body, rest, traced⟩ :: loops) ∧
      ∃ stop, (Text.brackets (code.map Prod.fst)).closing? ('[', ip) = some (']', stop) ∧
        Placed code (stop + 1) rest loops := by
  obtain ⟨⟨pre, rfl, hcode⟩, hplain, hshallow, haround⟩ := h
  have haround' : Around code (⟨place, body, rest, traced⟩ :: loops) :=
    .loop pre hcode hplain hshallow haround
  simp only [Node.flat, List.cons_append, List.append_assoc] at hcode
  rw [Node.Plain] at hplain
  rw [Node.depth] at hshallow
  refine ⟨getElem?_of_split hcode, ?_,
    ⟨⟨pre ++ [('[', some place)], ?_, ?_⟩, hplain.1, ?_, haround'⟩, _,
    (Node.partners_flat hcode).1,
    ⟨pre ++ ('[', some place) :: (Node.flat body ++ [(']', none)]), ?_, ?_⟩, hplain.2, ?_, haround⟩
  · omega
  · rw [List.length_append, List.length_singleton]
  · rw [hcode, behindLoops, List.append_assoc, List.singleton_append]
  · rw [List.length_cons]
    omega
  · simp only [List.length_append, List.length_cons, List.length_nil]
    omega
  · simp only [hcode, List.append_assoc, List.cons_append, List.nil_append]
  · omega

/-- A pass over a body ends with a bracket; the next pass begins behind the partner, and what is
left of the pass around it follows. -/
theorem turn {l : ActiveLoop} {outer : List ActiveLoop} (h : Placed code ip [] (l :: outer)) :
    code[ip]? = some (']', none) ∧ Placed code (ip + 1) l.rest outer ∧
      ∃ start, (Text.brackets (code.map Prod.fst)).opening? (']', ip) = some ('[', start) ∧
        Placed code (start + 1) l.body (l :: outer) := by
  obtain ⟨⟨pre, rfl, hcode⟩, -, -, haround⟩ := h
  cases haround with
  | loop before hbefore hplain hshallow houter =>
    have hat : Placed code before.length (l.node :: l.rest) outer :=
      ⟨⟨before, rfl, hbefore⟩, hplain, hshallow, houter⟩
    obtain ⟨-, -, hbody, -⟩ := hat.loop l.traced
    simp only [ActiveLoop.node, Node.flat, List.cons_append, List.append_assoc] at hbefore
    rw [Node.flat, List.nil_append, behindLoops] at hcode
    -- what follows the closing bracket is the same either way, so it is the same bracket
    have hip : pre.length = before.length + 1 + (Node.flat l.body).length := by
      have := congrArg List.length (hcode.symm.trans hbefore)
      simp only [List.length_append, List.length_cons] at this
      omega
    rw [ActiveLoop.node, Node.Plain] at hplain
    rw [ActiveLoop.node, Node.depth] at hshallow
    refine ⟨getElem?_of_split hcode, ⟨⟨pre ++ [(']', none)], ?_, ?_⟩, hplain.2, ?_, houter⟩,
      before.length, ?_, hbody⟩
    · rw [List.length_append, List.length_singleton]
    · rw [hcode, List.append_assoc, List.singleton_append]
    · omega
    · rw [hip]
      exact (Node.partners_flat hbefore).2

end Placed

/-! ## Interpreters alongside a walk -/

/-- Nobody listens, the sink never fails, and instructions work on the interpreter's own tape. -/
structure Interp.Alone (s : Interp L) : Prop where
  hooks : s.hooks = #[]
  sink : s.sink.Open
  bench : s.bench = none

/-- An interpreter that started from `base` shows what the walk has done: the tape holds its ring,
its output has been written, and its instructions have been counted. -/
structure Interp.Shows (base s : Interp L) (w : Walk) : Prop where
  ring : s.tape.map Ring.ofTape = some w.ring
  output : s.sink.text = base.sink.text ++ String.ofList w.output
  steps : s.steps = base.steps + w.started

namespace Interp

variable {base s : Interp L} {w : Walk}

/-- The instructions see the current number of the ring. -/
theorem Shows.toNat_cell (h : base.Shows s w) (ha : s.Alone) : s.cell.toNat = w.ring.current := by
  obtain ⟨t, ht, hr⟩ := Option.map_eq_some_iff.1 h.ring
  have hcell : s.cell = t.current := by
    rw [cell, work, ha.bench, ht]
    rfl
  rw [hcell, ← hr, Ring.current_ofTape]

theorem Shows.cell_eq_zero (h : base.Shows s w) (ha : s.Alone) :
    s.cell = 0 ↔ w.ring.current = 0 := by
  rw [← h.toNat_cell ha]
  exact UInt8.toNat_inj.symm

theorem Alone.start (h : s.Alone) (n : Node) : (s.start n).Alone := ⟨h.hooks, h.sink, h.bench⟩

theorem Alone.push (h : s.Alone) (f : Frame) : (s.push f).Alone := ⟨h.hooks, h.sink, h.bench⟩

theorem Alone.pop (h : s.Alone) : s.pop.Alone := ⟨h.hooks, h.sink, h.bench⟩

theorem Shows.start (h : base.Shows s w) (n : Node) : base.Shows (s.start n) w.next :=
  ⟨h.ring, h.output, (congrArg (· + 1) h.steps).trans (Nat.add_assoc _ _ _)⟩

/-- Changing the tape changes the ring. -/
theorem Shows.alter (h : base.Shows s w) (ha : s.Alone) {f : Tape → Tape} {g : Ring → Ring}
    (hf : ∀ t, Ring.ofTape (f t) = g (Ring.ofTape t)) :
    (s.alter f).Alone ∧ base.Shows (s.alter f) { w with ring := g w.ring } := by
  have halter : s.alter f = { s with tape := s.tape.map f } := by
    rw [Interp.alter, ha.bench]
  obtain ⟨t, ht, hr⟩ := Option.map_eq_some_iff.1 h.ring
  rw [halter]
  refine ⟨⟨ha.hooks, ha.sink, ha.bench⟩, ?_, h.output, h.steps⟩
  show (s.tape.map f).map Ring.ofTape = some (g w.ring)
  rw [ht, Option.map_some, Option.map_some, hf, hr]

/-- Writing a character adds it to the output. -/
theorem Shows.emit (h : base.Shows s w) (ha : s.Alone) :
    ∃ s', s.emit (String.singleton (Char.ofNat s.cell.toNat)) = .ok s' ∧ s'.Alone ∧
      base.Shows s' { w with output := w.output ++ [Char.ofNat w.ring.current] } := by
  let written := String.singleton (Char.ofNat s.cell.toNat)
  refine ⟨_, emit_of_open ha.sink written, ⟨ha.hooks, ha.sink, ha.bench⟩, h.ring, ?_, h.steps⟩
  show s.sink.text ++ written = _
  rw [h.output, String.ofList_append, String.append_assoc, ← h.toNat_cell ha]
  rfl

end Interp

/-- Execution and the walk have come equally far. -/
inductive Alongside (base : Interp L) (code : List (Char × Option Location)) :
    Progress L → Walk.Outcome → Prop where
  | running {c : Config L} {w : Walk} (alone : c.state.Alone) (shows : base.Shows c.state w)
      (placed : Placed code w.ip c.rest c.loops) : Alongside base code (.running c) (.walking w)
  | finished {s : Interp L} {w : Walk} (alone : s.Alone) (shows : base.Shows s w) :
      Alongside base code (.finished s) (.ended w)
  | refused {s : Interp L} {w : Walk} {f : Fault} (alone : s.Alone) (shows : base.Shows s w)
      (kind : f.kind = "BFRuntimeError") (rule : f.rule = some "InputReplace")
      (here : code[w.ip]? = some (',', f.location)) :
      Alongside base code (.halted ⟨.fault f, s⟩) (.refused w)

/-- A run from `base` has turned out as the walk over the code of its text has. -/
inductive Interp.Matches (base : Interp L) : Verdict L → Walk.Outcome → Prop where
  | finished {s : Interp L} {w : Walk} (shows : base.Shows s w) :
      Matches base (.finished s) (.ended w)
  | refused {s : Interp L} {w : Walk} {f : Fault} (i : Nat) (shows : base.Shows s w)
      (kind : f.kind = "BFRuntimeError") (rule : f.rule = some "InputReplace")
      (here : (Text.code base.source.toList)[w.ip]? = some (',', i))
      (location : f.location = some (Text.location base.source base.file i)) :
      Matches base (.stopped ⟨.fault f, s⟩) (.refused w)

variable [Listener L]

namespace Alongside

variable {base s : Interp L} {w : Walk} {code : List (Char × Option Location)}

/-- After the effect of a statement nobody hears of it, and execution goes on. -/
theorem ofResult_announceAfter (ha : s.Alone) (traced : Bool) (n : Node)
    (next : Interp L → Config L) :
    Progress.ofResult (s.announceAfter traced n) next = .running (next s) := by
  rw [Interp.announceAfter_of_no_hooks ha.hooks, Progress.ofResult]

/-- An operation on the tape goes on with the ring changed in the same way. -/
theorem ofResult_alter {rest : List Node} {traced : Bool} {loops : List ActiveLoop} (n : Node)
    (ha : s.Alone) (hs : base.Shows s w.next) (hp : Placed code (w.ip + 1) rest loops)
    {f : Tape → Tape} {g : Ring → Ring} (hf : ∀ t, Ring.ofTape (f t) = g (Ring.ofTape t)) :
    Alongside base code
      (.ofResult ((s.alter f).announceAfter traced n) fun s => ⟨s, rest, traced, loops⟩)
      (.walking { w.next with ring := g w.ring }) := by
  obtain ⟨ha', hs'⟩ := hs.alter ha hf
  rw [ofResult_announceAfter ha']
  exact .running ha' hs' hp

/-- The effect of an operation is one instruction of the walk. -/
theorem perform_op {o : Op} {l : Option Location} {rest : List Node} {traced : Bool}
    {loops : List ActiveLoop} (ha : s.Alone) (hs : base.Shows s w.next)
    (hp : Placed code w.ip (.op o l :: rest) loops) :
    Alongside base code (Config.perform s (.op o l) rest traced loops)
      (w.step (code.map Prod.fst)) := by
  obtain ⟨hhere, hnext⟩ := hp.op
  rw [Config.perform, Walk.step, List.getElem?_map, hhere, Option.map_some]
  cases o with
  | left => exact ofResult_alter _ ha hs hnext Ring.ofTape_left
  | right => exact ofResult_alter _ ha hs hnext Ring.ofTape_right
  | increment => exact ofResult_alter _ ha hs hnext Ring.ofTape_increment
  | decrement => exact ofResult_alter _ ha hs hnext Ring.ofTape_decrement
  | output =>
    obtain ⟨s', he, ha', hs'⟩ := hs.emit ha
    simp only [Interp.operate, he, ofResult_announceAfter ha']
    exact .running ha' hs' hnext
  | input => exact .refused ha ⟨hs.ring, hs.output, hs.steps⟩ rfl rfl hhere

/-- The effect of a loop is one instruction of the walk. -/
theorem descend {place : Location} {body rest : List Node} {traced : Bool}
    {loops : List ActiveLoop} (ha : s.Alone) (hs : base.Shows s w.next)
    (hp : Placed code w.ip (.loop place body :: rest) loops) :
    Alongside base code (Config.descend s ⟨place, body, rest, traced⟩ loops)
      (w.step (code.map Prod.fst)) := by
  obtain ⟨hhere, hshallow, hbody, stop, hstop, hrest⟩ := hp.loop traced
  have hstep : w.step (code.map Prod.fst) =
      .walking { w with ip := w.enter (code.map Prod.fst), started := w.started + 1 } := by
    rw [Walk.step, List.getElem?_map, hhere, Option.map_some]
    rfl
  rw [Config.descend, hstep, Walk.enter]
  by_cases hz : s.cell = 0
  · have hcurrent : w.ring.current = 0 := (hs.cell_eq_zero ha).1 hz
    rw [if_pos hz, if_pos hcurrent, hstop, ofResult_announceAfter ha]
    exact .running ha ⟨hs.ring, hs.output, hs.steps⟩ hrest
  · have hcurrent : w.ring.current ≠ 0 := fun h => hz ((hs.cell_eq_zero ha).2 h)
    have ha' := ha.push (Frame.ofLoop place)
    have hz' : (s.push (Frame.ofLoop place)).cell ≠ 0 := hz
    rw [if_neg hz, if_neg hcurrent, if_neg (Nat.not_le.2 hshallow),
      Interp.announce_of_no_hooks ha'.hooks]
    simp only [Config.turn]
    rw [if_neg hz']
    exact .running ha' ⟨hs.ring, hs.output, hs.steps⟩ hbody

/-- Testing a loop again is one instruction of the walk. -/
theorem turn {l : ActiveLoop} {outer : List ActiveLoop} (ha : s.Alone) (hs : base.Shows s w)
    (hp : Placed code w.ip [] (l :: outer)) :
    Alongside base code (Config.turn s l outer) (w.step (code.map Prod.fst)) := by
  obtain ⟨hhere, hrest, start, hstart, hbody⟩ := hp.turn
  have hstep : w.step (code.map Prod.fst) =
      .walking { w with ip := w.again (code.map Prod.fst) } := by
    rw [Walk.step, List.getElem?_map, hhere, Option.map_some]
    rfl
  rw [Config.turn, hstep, Walk.again]
  by_cases hz : s.cell = 0
  · have hcurrent : w.ring.current = 0 := (hs.cell_eq_zero ha).1 hz
    rw [if_pos hz, if_pos hcurrent, Config.leave, Interp.announce_of_no_hooks ha.hooks]
    simp only [ofResult_announceAfter ha.pop]
    exact .running ha.pop ⟨hs.ring, hs.output, hs.steps⟩ hrest
  · have hcurrent : w.ring.current ≠ 0 := fun h => hz ((hs.cell_eq_zero ha).2 h)
    rw [if_neg hz, if_neg hcurrent, hstart]
    exact .running ha ⟨hs.ring, hs.output, hs.steps⟩ hbody

/-- One step of execution is one instruction of the walk. -/
theorem step {c : Config L} (ha : c.state.Alone) (hs : base.Shows c.state w)
    (hp : Placed code w.ip c.rest c.loops) :
    Alongside base code c.step (w.step (code.map Prod.fst)) := by
  obtain ⟨s, rest, traced, loops⟩ := c
  cases rest with
  | nil =>
    cases loops with
    | nil =>
      rw [Config.step, Walk.step, List.getElem?_map, hp.finish, Option.map_none]
      exact .finished ha hs
    | cons l outer =>
      rw [Config.step]
      exact turn ha hs hp
  | cons n rest =>
    rw [Config.step, Interp.announceBefore_of_no_hooks (ha.start n).hooks]
    cases n with
    | op o l => exact perform_op (ha.start _) (hs.start _) hp
    | loop place body => exact descend (ha.start _) (hs.start _) hp
    | bare l =>
      have hplain := hp.plain
      rw [Node.Plain] at hplain
      exact hplain.elim

/-- Execution and the walk stay alongside for any number of steps. -/
theorem advance {c : Config L} (ha : c.state.Alone) (hs : base.Shows c.state w)
    (hp : Placed code w.ip c.rest c.loops) (n : Nat) :
    Alongside base code (c.advance n) (w.run (code.map Prod.fst) n) := by
  induction n generalizing c w with
  | zero => exact .running ha hs hp
  | succ n ih =>
    rw [Config.advance, Walk.run]
    have hstep := step ha hs hp
    generalize c.step = r at hstep ⊢
    generalize w.step (code.map Prod.fst) = o at hstep ⊢
    cases hstep with
    | running ha hs hp => exact ih ha hs hp
    | finished ha hs => exact .finished ha hs
    | refused ha hs kind rule here => exact .refused ha hs kind rule here

end Alongside

/-! ## Runs -/

namespace Interp

variable {s : Interp L} {tape : Tape} {p : Program}

/-- With any number of steps, the run and the walk are both under way or have turned out alike. -/
theorem run_alongside (hp : s.parse = .ok p)
    (hl : ∀ q ∈ (Text.brackets s.source.toList).pairs, q.level ≤ Config.maxActive)
    (hh : s.hooks = #[]) (hk : s.sink.Open) (n : Nat) :
    let r := Walk.run ((Text.code s.source.toList).map Prod.fst) n { ring := Ring.ofTape tape }
    (¬(s.run n tape).Settled ∧ ¬r.Settled) ∨
      ((s.run n tape).Settled ∧ r.Settled ∧ s.Matches (s.run n tape) r) := by
  intro r
  have hflat := Text.flat_parse hp
  have hcode : (Node.flat p.statements).map Prod.fst =
      (Text.code s.source.toList).map Prod.fst := by
    rw [hflat, List.map_map]
    rfl
  obtain ⟨-, hns, -, -⟩ := Program.ofSource_eq_ok_iff.1 hp
  have hplaced : Placed (Node.flat p.statements) 0 p.statements [] :=
    ⟨⟨[], rfl, (List.append_nil _).symm⟩, hns.plain, (Text.depth_parse hp _).1 hl, .top⟩
  have hshows : s.Shows (s.load p tape) { ring := Ring.ofTape tape } :=
    ⟨rfl, (String.append_empty).symm, rfl⟩
  have halong := Alongside.advance (c := Config.enter (s.load p tape) p.statements)
    ⟨hh, hk, rfl⟩ hshows hplaced n
  rw [hcode] at halong
  change Alongside _ _ _ r at halong
  rw [run, hp]
  simp only [runProgram, begin_of_no_hooks hh]
  generalize (Config.enter (s.load p tape) p.statements).advance n = a at halong ⊢
  generalize r = o at halong ⊢
  cases halong with
  | running => exact .inl ⟨id, id⟩
  | finished ha hs =>
    simp only [conclude, announce_of_no_hooks ha.hooks]
    exact .inr ⟨trivial, trivial, .finished ⟨hs.ring, hs.output, hs.steps⟩⟩
  | refused ha hs kind rule here =>
    simp only [report, raise, announce_of_no_hooks ha.hooks]
    rw [hflat, List.getElem?_map] at here
    obtain ⟨⟨c, i⟩, hi, he⟩ := Option.map_eq_some_iff.1 here
    obtain ⟨rfl, hloc⟩ := Prod.mk.inj he
    exact .inr ⟨trivial, trivial,
      .refused i ⟨hs.ring, hs.output, hs.steps⟩ kind rule hi hloc.symm⟩

/-- With loops nested no deeper than a run supports, running a program ends exactly when walking
over its code does, and it turns out alike: the same tape and output and as many instructions, and
a fault exactly at an instruction that asks for input. -/
theorem run_agrees_with_walk (s : Interp L) (tape : Tape) {p : Program} (hp : s.parse = .ok p)
    (hl : ∀ q ∈ (Text.brackets s.source.toList).pairs, q.level ≤ Config.maxActive)
    (hh : s.hooks = #[]) (hk : s.sink.Open) :
    let code := (Text.code s.source.toList).map Prod.fst
    let start : Walk := { ring := Ring.ofTape tape }
    ((∃ v, s.EndsIn tape v) ↔ ∃ r, Walk.EndsIn code start r) ∧
      ∀ v r, s.EndsIn tape v → Walk.EndsIn code start r → s.Matches v r :=
  ends_of_lockstep (fun _ => run_stable) (fun _ => Walk.run_stable) (run_alongside hp hl hh hk)

/-- In `-[+]],` the loop is gone through once, and the run stops at the comma. -/
theorem run_agrees_with_walk_refused :
    let s : Interp Script := { source := "-[+]],", file := "<string>" }
    let tape : Tape := ⟨2, Vector.replicate 2 0, 1⟩
    (∃ p, s.parse = .ok p) ∧
      (∀ q ∈ (Text.brackets s.source.toList).pairs, q.level ≤ Config.maxActive) ∧
      s.hooks = #[] ∧ s.sink.Open ∧
      ∃ f s', s.EndsIn tape (.stopped ⟨.fault f, s'⟩) ∧ s'.steps = 4 ∧
        s'.tape.map Ring.ofTape = some (((Ring.ofTape tape).add (-1)).add 1) ∧
        f.location.map Location.column = some 6 := by
  have hcode : Text.code "-[+]],".toList =
      [('-', 0), ('[', 1), ('+', 2), (']', 3), (',', 5)] := by decide
  have hwalk : Walk.EndsIn ((Text.code "-[+]],".toList).map Prod.fst)
      { ring := Ring.ofTape ⟨2, Vector.replicate 2 0, 1⟩ }
      (.refused ⟨4, ((Ring.ofTape ⟨2, Vector.replicate 2 0, 1⟩).add (-1)).add 1, [], 4⟩) := by
    rw [hcode]
    exact ⟨trivial, 5, rfl⟩
  intro s tape
  have hl : ∀ q ∈ (Text.brackets "-[+]],".toList).pairs, q.level ≤ Config.maxActive := by decide
  obtain ⟨p, hp⟩ := Text.exists_parse "-[+]]," "<string>" (by decide) (by decide)
  obtain ⟨hends, hmatch⟩ := run_agrees_with_walk s tape hp hl rfl Sink.open_default
  obtain ⟨v, hv⟩ := hends.2 ⟨_, hwalk⟩
  cases hmatch v _ hv hwalk with
  | @refused s' w f i hs kind rule here location =>
    rw [hcode] at here
    obtain rfl : 5 = i := congrArg Prod.snd (Option.some.inj here)
    refine ⟨⟨p, hp⟩, hl, rfl, Sink.open_default, f, s', hv, hs.steps, hs.ring, ?_⟩
    have hcolumn : (Text.place "-[+]],".toList 5).2 = 6 := by decide
    rw [location, Option.map_some]
    exact congrArg (fun n : Nat => some (n : Int)) hcolumn

end Interp

end TapeLang
