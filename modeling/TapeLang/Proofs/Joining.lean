import TapeLang.Proofs.Headway
import TapeLang.Proofs.Kinship
import TapeLang.Proofs.Texts
import TapeLang.Script

/-!
# Texts joined together

Two programs written one behind the other are a program: no bracket of the one matches a bracket of
the other, because every bracket that opens in the first is closed there. Its run is the run of the
first and, if that succeeds, the run of the second on the tape that the first leaves.
-/

namespace TapeLang

/-! ## Reading -/

theorem Node.SameShape.append {as as' bs bs' : List Node} (h : SameShape as as')
    (h' : SameShape bs bs') : SameShape (as ++ bs) (as' ++ bs') := by
  induction h with
  | nil => exact h'
  | op _ ih => exact .op ih
  | loop inside _ _ ih => exact .loop inside ih
  | bare _ ih => exact .bare ih

theorem Node.depth_append (as bs : List Node) : depth (as ++ bs) = max (depth as) (depth bs) := by
  fun_induction depth as <;> simp_all [depth, Nat.max_assoc]

theorem Node.SameShape.depth_eq {as bs : List Node} (h : SameShape as bs) :
    depth as = depth bs := by
  induction h with
  | nil => rfl
  | op _ ih | bare _ ih => rw [depth, depth, ih]
  | loop _ _ ihBody ihRest => rw [depth, depth, ihBody, ihRest]

namespace Spells

variable {t u : Source} {top : Bool} {i j k : Nat} {as bs : List Node}

/-- What is spelled one behind the other is spelled together. -/
theorem append (h : Spells t top i j as) (h' : Spells t top j k bs) :
    Spells t top i k (as ++ bs) := by
  induction h with
  | nil => exact h'
  | op h _ ih => exact .op h (ih h')
  | pass h _ ih => exact .pass h (ih h')
  | stray h _ ih => exact .stray h (ih h')
  | loop ho inside hc _ _ ih => exact .loop ho inside hc (ih h')

/-- Tokens of the same kinds, further on in another list, spell statements of the same shape. -/
theorem shift (h : Spells t top i j as) (d : Nat)
    (hkind : ∀ k, i ≤ k → k < j → u.kind (k + d) = t.kind k) :
    ∃ bs, Spells u top (i + d) (j + d) bs ∧ Node.SameShape as bs := by
  have hnext (i : Nat) : i + 1 + d = i + d + 1 := by omega
  induction h with
  | nil top i => exact ⟨[], .nil top _, .nil⟩
  | @op top i j o as h rest ih =>
    have := rest.le
    obtain ⟨bs, hs, hshape⟩ := ih fun k hi hj => hkind k (by omega) hj
    rw [hnext] at hs
    exact ⟨_, .op ((hkind i (by omega) (by omega)).trans h) hs, .op hshape⟩
  | @pass top i j as h rest ih =>
    have := rest.le
    obtain ⟨bs, hs, hshape⟩ := ih fun k hi hj => hkind k (by omega) hj
    rw [hnext] at hs
    rw [← hkind i (by omega) (by omega)] at h
    exact ⟨bs, .pass h hs, hshape⟩
  | @stray i j as h rest ih =>
    have := rest.le
    obtain ⟨bs, hs, hshape⟩ := ih fun k hi hj => hkind k (by omega) hj
    rw [hnext] at hs
    exact ⟨bs, .stray ((hkind i (by omega) (by omega)).trans h) hs, hshape⟩
  | @loop top i p j body as ho inside hc rest ihBody ihRest =>
    have := inside.le
    have := rest.le
    obtain ⟨body', hbody, hshape⟩ := ihBody fun k hi hj => hkind k (by omega) (by omega)
    obtain ⟨bs, hs, hshape'⟩ := ihRest fun k hi hj => hkind k (by omega) hj
    rw [hnext] at hbody hs
    exact ⟨_, .loop ((hkind i (by omega) (by omega)).trans ho) hbody
      ((hkind p (by omega) (by omega)).trans hc) hs, .loop hshape hshape'⟩

end Spells

namespace Text

/-- The instructions of a text come first, and those of the text behind it follow. -/
theorem instructions_append (cs ds : List Char) :
    instructions (cs ++ ds) =
      instructions cs ++ (instructions ds).map fun a => (a.1, cs.length + a.2) := by
  rw [instructions, instructions, instructions, List.zipIdx_append, List.filter_append,
    Nat.zero_add, List.zipIdx_eq_map_add (l := ds) (i := cs.length), List.filter_map]
  rfl

variable (a b name file : String)

theorem kind_append_left {k : Nat} (hk : k < (instructions a.toList).length) :
    (Source.ofText (a ++ b) name).kind k = (Source.ofText a file).kind k := by
  have hk' : k < (instructions (a ++ b).toList).length := by
    rw [String.toList_append, instructions_append, List.length_append]
    omega
  rw [kind_ofText (List.mem_range.2 hk), kind_ofText (List.mem_range.2 hk'), Function.comp,
    Function.comp, entry, entry, String.toList_append, instructions_append,
    List.getElem?_append_left hk]

theorem kind_append_right {k : Nat} (hk : k < (instructions b.toList).length) :
    (Source.ofText (a ++ b) name).kind (k + (instructions a.toList).length) =
      (Source.ofText b file).kind k := by
  have hk' : k + (instructions a.toList).length < (instructions (a ++ b).toList).length := by
    rw [String.toList_append, instructions_append, List.length_append, List.length_map]
    omega
  rw [kind_ofText (List.mem_range.2 hk), kind_ofText (List.mem_range.2 hk'), Function.comp,
    Function.comp, entry, entry, String.toList_append, instructions_append,
    List.getElem?_append_right (by omega), Nat.add_sub_cancel, List.getElem?_map,
    List.getElem?_eq_getElem hk]
  rfl

end Text

/-- A text that is a program, followed by another one, is a program: the statements of the one and
then those of the other. -/
theorem Program.parse_append {a b file file' : String} {p q : Program}
    (hp : parse a file = .ok p) (hq : parse b file' = .ok q) (name : String) :
    ∃ as bs finish, parse (a ++ b) name = .ok ⟨as ++ bs, finish⟩ ∧
      Node.SameShape p.statements as ∧ Node.SameShape q.statements bs := by
  obtain ⟨-, hps, hpd, -⟩ := ofSource_eq_ok_iff.1 hp
  obtain ⟨-, hqs, hqd, -⟩ := ofSource_eq_ok_iff.1 hq
  rw [Text.size_ofText, Nat.add_sub_cancel] at hps hqs
  have hsize : (Source.ofText (a ++ b) name).tokens.size - 1 =
      (Text.instructions b.toList).length + (Text.instructions a.toList).length := by
    rw [Text.size_ofText, Nat.add_sub_cancel, String.toList_append, Text.instructions_append,
      List.length_append, List.length_map, Nat.add_comm]
  obtain ⟨as, has, hshape⟩ := hps.shift (u := Source.ofText (a ++ b) name) 0
    fun _ _ hk => Text.kind_append_left a b name file hk
  obtain ⟨bs, hbs, hshape'⟩ := hqs.shift (u := Source.ofText (a ++ b) name) _
    fun _ _ hk => Text.kind_append_right a b name file' hk
  have hspells := has.append (Nat.zero_add _ ▸ hbs)
  refine ⟨as, bs, _, ofSource_eq_ok_iff.2 ⟨?_, ?_, ?_, rfl⟩, hshape, hshape'⟩
  · rw [Text.size_ofText]
    exact Nat.succ_ne_zero _
  · rw [hsize]
    exact hspells
  · rw [Node.depth_append, ← hshape.depth_eq, ← hshape'.depth_eq]
    exact Nat.max_le.2 ⟨hpd, hqd⟩

/-! ## Executing -/

variable {L : Type}

/-- What a pass and the loops around it have left when statements are put behind the program. -/
def behind (bs : List Node) (rest : List Node) : List ActiveLoop → List Node × List ActiveLoop
  | [] => (rest ++ bs, [])
  | l :: outer =>
    let around := behind bs l.rest outer
    (rest, { l with rest := around.1 } :: around.2)

/-- The same execution with statements put behind the program. -/
def Config.follow (bs : List Node) (c : Config L) : Config L :=
  let left := behind bs c.rest c.loops
  ⟨c.state, left.1, c.traced, left.2⟩

/-- The same progress with statements put behind the program. -/
def Progress.follow (bs : List Node) : Progress L → Progress L
  | .running c => .running (c.follow bs)
  | r => r

namespace Config

theorem length_behind (bs rest : List Node) (loops : List ActiveLoop) :
    (behind bs rest loops).2.length = loops.length := by
  induction loops generalizing rest with
  | nil => rfl
  | cons l outer ih => rw [behind, List.length_cons, List.length_cons, ih]

theorem behind_cons (bs rest : List Node) (n : Node) (loops : List ActiveLoop) :
    behind bs (n :: rest) loops =
      (n :: (behind bs rest loops).1, (behind bs rest loops).2) := by
  cases loops <;> rfl

variable [Listener L] {c : Config L}

/-- Until the program is at its end, statements behind it change no step. -/
theorem step_follow (h : c.state.hooks = #[]) (bs : List Node)
    (hend : ∀ s, c.step ≠ .finished s) : (c.follow bs).step = c.step.follow bs := by
  obtain ⟨s, rest, traced, loops⟩ := c
  simp only at h
  cases rest with
  | nil =>
    cases loops with
    | nil => exact absurd rfl (hend s)
    | cons l outer =>
      by_cases hz : s.cell = 0
      · rw [step_leave h hz]
        exact step_leave h hz _
      · rw [step_turn h hz]
        exact step_turn h hz _
  | cons n rest =>
    rw [follow, behind_cons]
    cases n with
    | op o l =>
      rw [step_op h, step_op h]
      cases (s.start (.op o l)).operate o l <;> rfl
    | bare l =>
      rw [step_bare h, step_bare h]
      rfl
    | loop l body =>
      by_cases hz : s.cell = 0
      · rw [step_skip h hz, step_skip h hz]
        rfl
      · by_cases hd : maxActive ≤ loops.length
        · rw [step_deep h hz hd, step_deep h hz ((length_behind _ _ _).symm ▸ hd)]
          rfl
        · rw [step_enter h hz hd, step_enter h hz ((length_behind _ _ _).symm ▸ hd)]
          rfl

/-- Execution that has not come to the end of the program goes on as it does with statements put
behind it. -/
theorem advance_follow (h : c.state.hooks = #[]) (bs : List Node) (n : Nat)
    (hend : ∀ s, c.advance n ≠ .finished s) :
    (c.follow bs).advance n = (c.advance n).follow bs := by
  induction n generalizing c with
  | zero => rfl
  | succ n ih =>
    have hfirst : ∀ s, c.step ≠ .finished s := by
      intro s hs
      refine hend s ?_
      rw [advance, hs]
    rw [advance, step_follow h bs hfirst]
    rw [advance] at hend ⊢
    cases hs : c.step with
    | running d =>
      rw [hs] at hend
      have hd := advance_of_no_hooks h 1
      rw [advance, hs] at hd
      exact ih hd hend
    | finished s => exact absurd hs (hfirst s)
    | halted halt => rfl

/-- Execution that finishes has come to the end of the program before. -/
theorem exists_end {n : Nat} {s : Interp L} (hf : c.advance n = .finished s) :
    ∃ m traced, c.advance m = .running ⟨s, [], traced, []⟩ := by
  obtain ⟨log, harrives⟩ := c.exists_arrives n
  rw [hf] at harrives
  obtain ⟨traced, path⟩ := harrives
  obtain ⟨m, hm⟩ := path.exists_advance
  exact ⟨m, traced, hm⟩

end Config

/-! ## Side by side -/

namespace Interp

/-- Two interpreters have counted, written and done to their tapes the same. -/
structure Level (s t : Interp L) : Prop where
  steps : t.steps = s.steps
  tape : t.tape = s.tape
  sink : t.sink = s.sink

/-- Both go on the same way from here, the first with texts of this file. The sink does nothing
worse than fail. -/
structure Abeam (file : String) (s t : Interp L) : Prop extends s.Level t where
  hooks : s.hooks = #[]
  hooks' : t.hooks = #[]
  bench : s.bench = none
  bench' : t.bench = none
  file : s.file = file
  own : ∃ tape, s.tape = some tape
  ordinary : s.sink.Ordinary

namespace Abeam

variable {file : String} {s t : Interp L}

theorem cell_eq (h : Abeam file s t) : t.cell = s.cell := by
  rw [cell, cell, work, work, h.tape, h.bench, h.bench']

theorem start (h : Abeam file s t) (n n' : Node) : Abeam file (s.start n) (t.start n') :=
  ⟨⟨congrArg (· + 1) h.steps, h.tape, h.sink⟩, h.hooks, h.hooks', h.bench, h.bench', h.file, h.own,
    h.ordinary⟩

theorem push (h : Abeam file s t) (f f' : Frame) : Abeam file (s.push f) (t.push f') :=
  ⟨⟨h.steps, h.tape, h.sink⟩, h.hooks, h.hooks', h.bench, h.bench', h.file, h.own, h.ordinary⟩

theorem pop (h : Abeam file s t) : Abeam file s.pop t.pop :=
  ⟨⟨h.steps, h.tape, h.sink⟩, h.hooks, h.hooks', h.bench, h.bench', h.file, h.own, h.ordinary⟩

theorem alter (h : Abeam file s t) (f : Tape → Tape) : Abeam file (s.alter f) (t.alter f) := by
  obtain ⟨tape, htape⟩ := h.own
  rw [Interp.alter, Interp.alter, h.bench, h.bench']
  exact ⟨⟨h.steps, congrArg (Option.map f) h.tape, h.sink⟩, h.hooks, h.hooks', rfl, rfl, h.file,
    ⟨f tape, by rw [htape]; rfl⟩, h.ordinary⟩

end Abeam

/-- Being abeam, with statements of the same shape at whatever places. -/
def abeam (file : String) : Kinship L where
  op o := o
  place _ _ := True
  count := Eq
  state := Abeam file

theorem nodes_abeam {file : String} {as bs : List Node} (h : Node.SameShape as bs) :
    (abeam file : Kinship L).Nodes as bs := by
  induction h with
  | nil => exact .nil
  | op _ ih => exact .op trivial ih
  | loop _ _ ihBody ihRest => exact .loop trivial ihBody ihRest
  | bare _ ih => exact .bare trivial ih

/-- An operation does the same, wherever it stands. -/
theorem Abeam.operate {file : String} {s t : Interp L} (h : Abeam file s t) (o : Op)
    (l l' : Option Location) : (abeam file).Results (s.operate o l) (t.operate o l') := by
  cases o with
  | left | right | increment | decrement => exact .ok (h.alter _)
  | output =>
    rw [Interp.operate, Interp.operate, h.cell_eq, emit, emit, h.sink]
    have hsink {k : Sink} (hk : k.Ordinary) :
        Abeam file { s with sink := k } { t with sink := k } :=
      ⟨⟨h.steps, h.tape, rfl⟩, h.hooks, h.hooks', h.bench, h.bench', h.file, h.own, hk⟩
    cases hr : s.sink.refusal s.sink.calls with
    | none => exact .ok (hsink (h.ordinary.of_refusal_eq rfl))
    | some stop =>
      obtain ⟨f, rfl⟩ := h.ordinary _ _ hr
      exact .error (.failure f) (hsink (h.ordinary.of_refusal_eq rfl))
  | input => exact .error (.fault ⟨rfl, rfl, rfl, rfl, trivial, .none⟩) h

/-- Execution keeps two interpreters abeam. -/
theorem kept_abeam (file : String) : (abeam file : Kinship L).Kept fun _ _ => True where
  hooks h := ⟨h.hooks, h.hooks'⟩
  steps h := h.steps.symm
  position _ := trivial
  start h _ := h.start _ _
  push h _ := h.push _ _
  pop h := h.pop
  cell _ h := h.cell_eq.symm
  operate _ h _ := h.operate _ _ _

/-- Two runs have turned out level: both have finished, or both have stopped with the same fault at
whatever place, after the same count, with the same output and the same tape. -/
inductive EndsLevel : Verdict L → Verdict L → Prop where
  | finished {s t : Interp L} (states : s.Level t) : EndsLevel (.finished s) (.finished t)
  | stopped (f : Fault) (place : Option Location) {s t : Interp L} (states : s.Level t) :
      EndsLevel (.stopped ⟨.fault f, s⟩) (.stopped ⟨.fault { f with location := place }, t⟩)

/-- From verdicts that are akin to the words of the statement. -/
theorem endsLevel_of_verdicts {file : String} {v w : Verdict L}
    (h : (abeam file).Verdicts v w) (hv : v.Settled) : EndsLevel v w := by
  cases h with
  | finished states => exact .finished states.toLevel
  | unfinished => exact hv.elim
  | @stopped f g s t faults states =>
    have hg : g = { f with location := g.location } := by
      conv_lhs => rw [faults.eq_with, faults.step_eq (k := id) fun _ _ => Eq.symm,
        Option.map_id_apply]
    rw [hg]
    exact .stopped f g.location states.toLevel

/-! ## Runs -/

variable [Listener L]

/-- How running a text, and then another one on the tape that is left if that succeeds, turns
out. -/
inductive EndsInTurn (s : Interp L) (text : String) (tape : Tape) : Verdict L → Prop where
  | first {halt : Halt L} (stops : s.EndsIn tape (.stopped halt)) :
      EndsInTurn s text tape (.stopped halt)
  | second {t : Interp L} {left : Tape} {v : Verdict L} (finishes : s.EndsIn tape (.finished t))
      (own : t.tape = some left) (ends : Interp.EndsIn { t with source := text } left v) :
      EndsInTurn s text tape v

/-- Where the first text is at its end, the joined one goes on as a run of the second one does. -/
theorem run_on {file text : String} {q : Program} {t : Interp L} {traced : Bool} {c : Config L}
    (h : (abeam file).Configs ⟨t, q.statements, traced, []⟩ c)
    (hq : Program.parse text file = .ok q) :
    ∃ left, t.tape = some left ∧ ∀ k, (abeam file).Verdicts
      (Interp.run k { t.pop with source := text } left) (c.advance k).verdict := by
  obtain ⟨hstate, hrest, hloops⟩ := h
  obtain ⟨left, hleft⟩ := hstate.own
  refine ⟨left, hleft, fun k => ?_⟩
  let u : Interp L := { t.pop with source := text }
  have hu : u.parse = .ok q := by
    rw [← hq, ← hstate.file]
    rfl
  have hload : Abeam file (u.load q left) c.state :=
    ⟨⟨hstate.steps, hstate.tape.trans hleft, hstate.sink⟩, hstate.hooks, hstate.hooks', rfl,
      hstate.bench', hstate.file, ⟨left, rfl⟩, hstate.ordinary⟩
  have hstart : (abeam file).Configs ⟨u.load q left, q.statements, false, []⟩ c :=
    ⟨hload, hrest, hloops⟩
  rw [run_of_begin hu (begin_untraced (s := u) hstate.hooks q left)]
  exact (kept_abeam file).verdict ((kept_abeam file).advance hstart k fun _ _ _ _ => trivial)

/-- After any number of steps the joined text has got as far as the first one, or, when that has
finished, goes on as the second one does. -/
theorem run_append_cases {s : Interp L} (hs : s.hooks = #[]) (hk : s.sink.Ordinary)
    {text : String} {p q : Program} (hp : s.parse = .ok p) (hq : Program.parse text s.file = .ok q)
    (tape : Tape) (n : Nat) :
    let joined : Interp L := { s with source := s.source ++ text }
    ((∃ c, s.run n tape = .unfinished c) ∧ ¬(joined.run n tape).Settled) ∨
      ((∃ halt, s.run n tape = .stopped halt) ∧
        (abeam s.file).Verdicts (s.run n tape) (joined.run n tape)) ∨
      ∃ t left m, s.run n tape = .finished t ∧ t.tape = some left ∧ ∀ k,
        (abeam s.file).Verdicts (Interp.run k { t with source := text } left)
          (joined.run (m + k) tape) := by
  intro joined
  obtain ⟨as, bs, finish, hr, hfirst, hsecond⟩ := Program.parse_append hp hq s.file
  let c : Config L := ⟨joined.load ⟨as ++ bs, finish⟩ tape, as ++ bs, false, []⟩
  let d : Config L := ⟨s.load p tape, p.statements, false, []⟩
  have hrun (n : Nat) : s.run n tape = (d.advance n).verdict :=
    run_of_begin hp (begin_untraced hs p tape) n
  have hr : joined.parse = .ok ⟨as ++ bs, finish⟩ := hr
  have hjoined (n : Nat) : joined.run n tape = (c.advance n).verdict :=
    run_of_begin hr (begin_untraced (s := joined) hs _ tape) n
  have halong (n : Nat) :
      (abeam s.file).Progresses ((d.follow q.statements).advance n) (c.advance n) := by
    have hload : Abeam s.file (s.load p tape) (joined.load ⟨as ++ bs, finish⟩ tape) :=
      ⟨⟨rfl, rfl, rfl⟩, hs, hs, rfl, rfl, rfl, ⟨tape, rfl⟩, hk⟩
    have hstart : (abeam s.file).Configs (d.follow q.statements) c :=
      ⟨hload, (nodes_abeam hfirst).append (nodes_abeam hsecond), .nil⟩
    exact (kept_abeam s.file).advance hstart n fun _ _ _ _ => trivial
  have hfollow (n : Nat) (hend : ∀ t, d.advance n ≠ .finished t) :
      (abeam s.file).Progresses ((d.advance n).follow q.statements) (c.advance n) := by
    have hd : d.state.hooks = #[] := hs
    rw [← Config.advance_follow hd _ n hend]
    exact halong n
  rw [hrun, hjoined]
  cases hd : d.advance n with
  | running e =>
    refine .inl ⟨⟨e, rfl⟩, ?_⟩
    have h := hfollow n fun t ht => by rw [hd] at ht; cases ht
    rw [hd] at h
    intro hv
    exact ((kept_abeam s.file).verdict h).settled_iff.2 hv
  | halted halt =>
    refine .inr (.inl ⟨⟨_, rfl⟩, ?_⟩)
    have h := hfollow n fun t ht => by rw [hd] at ht; cases ht
    rw [hd] at h
    exact (kept_abeam s.file).verdict h
  | finished t =>
    obtain ⟨m, traced, hm⟩ := Config.exists_end hd
    have h := hfollow m fun t ht => by rw [hm] at ht; cases ht
    rw [hm] at h
    have h : (abeam s.file).Progresses (.running ⟨t, q.statements, traced, []⟩) (c.advance m) := h
    cases hc : c.advance m with
    | finished | halted => rw [hc] at h; cases h
    | running e =>
      rw [hc] at h
      cases h with
      | running configs =>
        obtain ⟨left, hleft, hon⟩ := run_on configs hq
        refine .inr (.inr ⟨t.pop, left, m, conclude_of_no_hooks configs.state.hooks, hleft, ?_⟩)
        intro k
        rw [hjoined, Config.advance_add hc]
        exact hon k

variable {s : Interp L} {text : String} {p q : Program} {tape : Tape}

/-- When the two texts have been run in turn, the joined one ends level with them. -/
theorem EndsInTurn.exists_endsIn {v : Verdict L} (h : s.EndsInTurn text tape v)
    (hs : s.hooks = #[]) (hk : s.sink.Ordinary) (hp : s.parse = .ok p)
    (hq : Program.parse text s.file = .ok q) :
    ∃ w, Interp.EndsIn { s with source := s.source ++ text } tape w ∧ EndsLevel v w := by
  cases h with
  | first stops =>
    obtain ⟨hv, n, hn⟩ := stops
    rcases run_append_cases hs hk hp hq tape n with ⟨⟨c, hc⟩, -⟩ | ⟨-, h⟩ | ⟨t, left, m, ht, -, -⟩
    · rw [hn] at hc
      cases hc
    · rw [hn] at h
      exact ⟨_, ⟨h.settled_iff.1 hv, n, rfl⟩, endsLevel_of_verdicts h hv⟩
    · rw [hn] at ht
      cases ht
  | @second t left v finishes own ends =>
    obtain ⟨-, n, hn⟩ := finishes
    obtain ⟨hv, k, hrun⟩ := ends
    rcases run_append_cases hs hk hp hq tape n with
      ⟨⟨c, hc⟩, -⟩ | ⟨⟨halt, hc⟩, -⟩ | ⟨t', left', m, ht, hleft, hon⟩
    · rw [hn] at hc
      cases hc
    · rw [hn] at hc
      cases hc
    · rw [hn] at ht
      cases ht
      obtain rfl := Option.some.inj (own.symm.trans hleft)
      have h := hon k
      rw [hrun] at h
      exact ⟨_, ⟨h.settled_iff.1 hv, m + k, rfl⟩, endsLevel_of_verdicts h hv⟩

/-- When the joined text ends, running the two in turn ends. -/
theorem exists_endsInTurn {w : Verdict L}
    (h : Interp.EndsIn { s with source := s.source ++ text } tape w) (hs : s.hooks = #[])
    (hk : s.sink.Ordinary) (hp : s.parse = .ok p) (hq : Program.parse text s.file = .ok q) :
    ∃ v, s.EndsInTurn text tape v := by
  obtain ⟨hw, n, hn⟩ := h
  rcases run_append_cases hs hk hp hq tape n with
    ⟨-, hover⟩ | ⟨⟨halt, hhalt⟩, -⟩ | ⟨t, left, m, ht, hleft, hon⟩
  · rw [hn] at hover
    exact absurd hw hover
  · exact ⟨_, .first ⟨trivial, n, hhalt⟩⟩
  · have h := hon n
    rw [Nat.add_comm, run_stable (by rw [hn]; exact hw), hn] at h
    exact ⟨_, .second ⟨trivial, n, ht⟩ hleft ⟨h.settled_iff.2 hw, n, rfl⟩⟩

/-- Concatenation is sequencing. Of two texts that are programs, the one followed by the other is a
program, with the statements of the one and then those of the other. Its run ends exactly when
running the one and then, if that succeeds, the other on the tape that is left does, and it ends
level with that: in the same way, after as many instructions in all, with the outputs joined and
with the same tape. -/
theorem run_append (s : Interp L) (hs : s.hooks = #[]) (hk : s.sink.Ordinary) (text : String)
    (tape : Tape) {p q : Program} (hp : s.parse = .ok p) (hq : Program.parse text s.file = .ok q) :
    let joined : Interp L := { s with source := s.source ++ text }
    (∃ r, joined.parse = .ok r ∧
        Node.SameShape (p.statements ++ q.statements) r.statements) ∧
      ((∃ v, s.EndsInTurn text tape v) ↔ ∃ w, joined.EndsIn tape w) ∧
      ∀ v w, s.EndsInTurn text tape v → joined.EndsIn tape w → EndsLevel v w := by
  intro joined
  refine ⟨?_, ⟨?_, ?_⟩, ?_⟩
  · obtain ⟨as, bs, finish, hr, hfirst, hsecond⟩ := Program.parse_append hp hq s.file
    exact ⟨_, hr, hfirst.append hsecond⟩
  · rintro ⟨v, hv⟩
    obtain ⟨w, hw, -⟩ := hv.exists_endsIn hs hk hp hq
    exact ⟨w, hw⟩
  · rintro ⟨w, hw⟩
    exact exists_endsInTurn hw hs hk hp hq
  · intro v w hv hw
    obtain ⟨w', hw', h⟩ := hv.exists_endsIn hs hk hp hq
    rwa [hw.unique hw']

/-- The stray bracket in `],` closes nothing in `+` either: `+],` counts the cell up and stops at
the comma, its second instruction. -/
theorem run_append_stray :
    let s : Interp Script := { source := "+", file := "a" }
    let tape : Tape := ⟨2, Vector.replicate 2 0, 1⟩
    s.hooks = #[] ∧ s.sink.Ordinary ∧ (∃ p, s.parse = .ok p) ∧
      (∃ q, Program.parse "]," s.file = .ok q) ∧
      ∃ f u, Interp.EndsIn { s with source := s.source ++ "]," } tape (.stopped ⟨.fault f, u⟩) ∧
        f.rule = some "InputReplace" ∧ f.step = some 2 ∧ u.tape.map Tape.current = some 1 := by
  intro s tape
  have hp : ∃ l finish, s.parse = .ok ⟨[.op .increment (some l)], finish⟩ := by
    have hspells : Spells (Source.ofText "+" "a") true 0 1
        [.op .increment (some ((Source.ofText "+" "a").place 0))] :=
      .op (by decide) (.nil true 1)
    exact ⟨_, Program.exists_parse_of_spells (by decide) hspells (by simp [Node.depth])⟩
  have hq : ∃ l finish, Program.parse "]," "a" = .ok ⟨[.op .input (some l)], finish⟩ := by
    have hspells : Spells (Source.ofText "]," "a") true 0 2
        [.op .input (some ((Source.ofText "]," "a").place 1))] :=
      .stray (by decide) (.op (by decide) (.nil true 2))
    exact ⟨_, Program.exists_parse_of_spells (by decide) hspells (by simp [Node.depth])⟩
  obtain ⟨l, finish, hp⟩ := hp
  obtain ⟨l', finish', hq⟩ := hq
  let first : Node := .op .increment (some l)
  let t : Interp Script :=
    (((s.load ⟨[first], finish⟩ tape).start first).alter (Tape.modify (· + 1))).pop
  let left : Tape := tape.modify (· + 1)
  have hfinishes : s.EndsIn tape (.finished t) := by
    refine ⟨trivial, 2, ?_⟩
    rw [run_of_begin hp (begin_untraced rfl _ tape), Config.advance_op rfl rfl]
    exact conclude_of_no_hooks rfl
  let u : Interp Script := { t with source := "]," }
  have hends : ∃ f u', u.run 1 left = .stopped ⟨.fault f, u'⟩ ∧ f.rule = some "InputReplace" ∧
      f.step = some 2 ∧ u'.tape.map Tape.current = some 1 := by
    have hu : u.parse = .ok ⟨[.op .input (some l')], finish'⟩ := hq
    rw [run_of_begin hu (begin_untraced (s := u) rfl _ left), Config.advance_op_error rfl rfl,
      Progress.verdict, report, raise_of_announce (announce_of_no_hooks rfl _)]
    exact ⟨_, _, rfl, rfl, rfl, rfl⟩
  obtain ⟨f, u', hrun, hrule, hstep, hcell⟩ := hends
  have hturn : s.EndsInTurn "]," tape (.stopped ⟨.fault f, u'⟩) :=
    .second hfinishes rfl ⟨trivial, 1, hrun⟩
  have hordinary : s.sink.Ordinary := Sink.open_default.ordinary
  obtain ⟨-, hends, hlevel⟩ := run_append s rfl hordinary "]," tape hp hq
  obtain ⟨w, hw⟩ := hends.1 ⟨_, hturn⟩
  refine ⟨rfl, hordinary, ⟨_, hp⟩, ⟨_, hq⟩, ?_⟩
  cases hlevel _ w hturn hw with
  | stopped _ place states =>
    refine ⟨_, _, hw, hrule, hstep, ?_⟩
    rw [states.tape, hcell]

end Interp

end TapeLang
