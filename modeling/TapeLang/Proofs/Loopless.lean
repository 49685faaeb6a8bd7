import TapeLang.Proofs.Circle
import TapeLang.Proofs.Closing
import TapeLang.Proofs.Direct

/-!
# Code without loops

Operations in a row leave the pointer as far from where it was as the moves among them lead, counted
around the ring, and every cell with what was added to it less what was taken from it, counted
around the values of a cell. What is written is what the current cell holds at each `.`, and that is
found in the same way from the operations before it. So the effect of a row of operations can be
told without executing them, and the row written backwards with every operation undone restores the
tape.
-/

namespace TapeLang

/-! ## Balances -/

namespace Op

/-- How far an operation moves the pointer to the right. -/
def stride : Op → Int
  | .right => 1
  | .left => -1
  | .increment | .decrement | .output | .input => 0

/-- How far operations move the pointer to the right, on balance. -/
def shift (ops : List Op) : Int := ops.count .right - ops.count .left

/-- How many of the operations are `o`, counting those alone that are carried out at the cell `c` if
the pointer starts from `p` on a ring of `n` cells. -/
def tally (o : Op) (n : Nat) (p c : Int) (ops : List Op) : Nat :=
  (List.range ops.length).countP fun i => ops[i]? = some o ∧ (p + shift (ops.take i)) % n = c

/-- The operation that takes an operation back. -/
def undo : Op → Op
  | .left => .right
  | .right => .left
  | .increment => .decrement
  | .decrement => .increment
  | .output => .output
  | .input => .input

/-- The operations that take operations back, the last one first. -/
def undoing (ops : List Op) : List Op := ops.reverse.map undo

@[simp] theorem shift_nil : shift [] = 0 := by simp [shift]

theorem shift_append (as bs : List Op) : shift (as ++ bs) = shift as + shift bs := by
  simp only [shift, List.count_append]
  omega

@[simp] theorem shift_singleton (o : Op) : shift [o] = o.stride := by
  cases o <;> simp [shift, stride]

@[simp] theorem undo_undo (o : Op) : o.undo.undo = o := by
  cases o <;> simp [undo]

theorem mem_undoing {o : Op} {ops : List Op} : o ∈ undoing ops ↔ o.undo ∈ ops := by
  simp only [undoing, List.mem_map, List.mem_reverse]
  constructor
  · rintro ⟨a, ha, rfl⟩
    rwa [undo_undo]
  · intro h
    exact ⟨o.undo, h, o.undo_undo⟩

variable {o : Op} {n : Nat} {p c : Int}

@[simp] theorem tally_nil : tally o n p c [] = 0 := by simp [tally]

/-- One more operation counts if it is the one that is counted, at the cell at which it is. -/
theorem tally_concat (ops : List Op) (a : Op) :
    tally o n p c (ops ++ [a]) =
      tally o n p c ops + if a = o ∧ (p + shift ops) % n = c then 1 else 0 := by
  unfold tally
  rw [List.length_append, List.length_singleton, List.range_succ, List.countP_append]
  congr 1
  · -- the operations up to one of the earlier ones are the same
    apply List.countP_congr
    intro i hi
    have hlt := List.mem_range.1 hi
    rw [List.getElem?_append_left hlt, List.take_append_of_le_length hlt.le]
  · simp [List.countP_cons]

end Op

/-! ## Tapes -/

/-- What an operation does to the tape. Writing does nothing to it. -/
def Op.onTape : Op → Tape → Tape
  | .left => Tape.left
  | .right => Tape.right
  | .increment => Tape.modify (· + 1)
  | .decrement => Tape.modify (· - 1)
  | .output | .input => id

namespace Tape

/-- What operations leave of a tape. -/
def after (t : Tape) (ops : List Op) : Tape := ops.foldl (fun u o => o.onTape u) t

/-- What operations write, from a tape on. -/
def writes (t : Tape) : List Op → List Char
  | [] => []
  | o :: ops =>
    if o = .output then Char.ofNat t.current.toNat :: (o.onTape t).writes ops
    else (o.onTape t).writes ops

/-- The cell that the pointer is at when operations have been carried out. -/
def pointed (t : Tape) (ops : List Op) : Int := (t.pointer.val + Op.shift ops) % t.length

/-- What the cell at an index holds when operations have been carried out. -/
def tallied (t : Tape) (ops : List Op) (c : Int) : Int :=
  ((t.around c).toNat + Op.tally .increment t.length t.pointer.val c ops
    - Op.tally .decrement t.length t.pointer.val c ops) % 256

variable (t : Tape) (o : Op) (as bs ops : List Op)

@[simp] theorem after_nil : t.after [] = t := by simp [after]

@[simp] theorem after_cons : t.after (o :: ops) = (o.onTape t).after ops := by simp [after]

theorem after_append : t.after (as ++ bs) = (t.after as).after bs := by simp [after]

@[simp] theorem length_onTape : (o.onTape t).length = t.length := by
  cases o <;> simp [Op.onTape]

@[simp] theorem length_after : (t.after ops).length = t.length := by
  induction ops generalizing t with
  | nil => simp
  | cons o ops ih => simp [ih]

/-! ### One operation -/

/-- Moves leave the cells alone. -/
@[simp] theorem around_move (k i : Int) : (t.move k).around i = t.around i := rfl

theorem move_zero : t.move 0 = t := by
  unfold move
  rw [Int.add_zero, spot_val]

/-- Moves add up. -/
theorem move_move (j k : Int) : (t.move j).move k = t.move (j + k) := by
  have hspot : t.spot ((t.spot (t.pointer.val + j)).val + k) =
      t.spot (t.pointer.val + (j + k)) := by
    rw [spot_eq_iff, ← Int.add_assoc]
    exact (t.spot_modEq _).add_right k
  exact congrArg (fun p : Fin t.length => { t with pointer := p }) hspot

/-- An index that leads to the pointer leads to the current cell. -/
theorem around_of_spot {c : Int} (h : t.spot c = t.pointer) : t.around c = t.current := by
  rw [← around_pointer]
  apply around_congr
  rw [h, spot_val]

/-- A change of the current cell is taken back by its inverse. -/
theorem modify_modify {f g : UInt8 → UInt8} (h : ∀ v, g (f v) = v) :
    (t.modify f).modify g = t := by
  apply ext_around
  · simp
  · rfl
  · intro i
    rw [around_modify, around_modify, current_modify, h]
    by_cases hi : t.spot i = t.pointer
    · rw [around_of_spot t hi]
      exact if_pos hi
    · rw [if_neg hi]
      exact if_neg hi

/-- An operation moves the pointer by its stride, around the ring. -/
theorem pointer_onTape :
    ((o.onTape t).pointer.val : Int) = (t.pointer.val + o.stride) % t.length := by
  have hstay : (t.pointer.val : Int) = (t.pointer.val + 0) % t.length := by
    rw [Int.add_zero, Int.emod_eq_of_lt (by omega) (by omega)]
  cases o with
  | right => rw [Op.onTape, right_eq]; exact t.val_spot _
  | left => rw [Op.onTape, left_eq]; exact t.val_spot _
  | increment | decrement | output | input => exact hstay

/-- An operation changes the current cell alone, by one at most and around its values. -/
theorem toNat_around_onTape (c : Int) :
    (((o.onTape t).around c).toNat : Int) =
      ((t.around c).toNat + (if o = .increment ∧ t.spot c = t.pointer then 1 else 0)
        - (if o = .decrement ∧ t.spot c = t.pointer then 1 else 0)) % 256 := by
  have hstay : ((t.around c).toNat : Int) = (t.around c).toNat % 256 := by
    have hlt := (t.around c).toNat_lt
    omega
  cases o with
  | left | right | output | input => simpa [Op.onTape, left_eq, right_eq] using hstay
  | increment =>
    simp only [Op.onTape, around_modify, true_and]
    by_cases h : t.spot c = t.pointer
    · rw [if_pos h, ← around_of_spot t h]
      simp [h, UInt8.toNat_add]
    · simpa [h] using hstay
  | decrement =>
    simp only [Op.onTape, around_modify]
    by_cases h : t.spot c = t.pointer
    · rw [if_pos h, ← around_of_spot t h]
      simp [h, UInt8.toNat_sub]
      omega
    · simpa [h] using hstay

/-! ### Operations in a row -/

/-- The pointer is where the moves lead. -/
theorem pointer_after : ((t.after ops).pointer.val : Int) = t.pointed ops := by
  induction ops using List.reverseRecOn with
  | nil =>
    have hlt := t.pointer.isLt
    rw [pointed, Op.shift_nil, after_nil, Int.emod_eq_of_lt (by omega) (by omega), Int.add_zero]
  | append_singleton ops o ih =>
    rw [after_append, after_cons, after_nil, pointer_onTape, ih, length_after, pointed, pointed,
      Op.shift_append, Op.shift_singleton, ← Int.add_assoc, Int.emod_add_emod]

/-- A cell holds what has been added to it less what has been taken from it. -/
theorem toNat_around_after {c : Nat} (hc : c < t.length) :
    (((t.after ops).around c).toNat : Int) = t.tallied ops c := by
  -- from the back, as an operation counts where those before it have moved the pointer
  induction ops using List.reverseRecOn with
  | nil =>
    have hlt := (t.around c).toNat_lt
    simp only [after_nil, tallied, Op.tally_nil]
    omega
  | append_singleton ops o ih =>
    have hcell : (t.after ops).spot c = (t.after ops).pointer ↔
        (t.pointer.val + Op.shift ops) % t.length = c := by
      have hspot := (t.after ops).spot_val ⟨c, by simpa using hc⟩
      rw [hspot, Fin.ext_iff, ← Int.natCast_inj, pointer_after, pointed]
      exact eq_comm
    rw [after_append, after_cons, after_nil, toNat_around_onTape, ih]
    simp only [tallied, Op.tally_concat, hcell]
    push_cast
    omega

/-- The current cell is the one that the moves lead to. -/
theorem toNat_current_after :
    ((t.after ops).current.toNat : Int) = t.tallied ops (t.pointed ops) := by
  have hlt : (t.after ops).pointer.val < t.length :=
    Nat.lt_of_lt_of_eq (t.after ops).pointer.isLt (t.length_after ops)
  rw [← around_pointer, toNat_around_after t ops hlt, pointer_after]

/-- Writing a row of operations is writing its parts, the second one from what the first leaves. -/
theorem writes_append : t.writes (as ++ bs) = t.writes as ++ (t.after as).writes bs := by
  induction as generalizing t with
  | nil => simp [writes]
  | cons o as ih =>
    simp only [List.cons_append, writes, ih, after_cons]
    split <;> simp

theorem length_writes : (t.writes ops).length = ops.count .output := by
  induction ops generalizing t with
  | nil => simp [writes]
  | cons o ops ih =>
    unfold writes
    by_cases h : o = .output
    · simp [h, ih]
    · simp [h, ih]

/-- What is written at a `.` is the current cell that the operations before it leave. -/
theorem getElem?_writes : (t.writes (as ++ .output :: bs))[as.count .output]? =
    some (Char.ofNat (t.after as).current.toNat) := by
  rw [writes_append, ← t.length_writes as]
  simp [writes]

/-- An operation that has been carried out can be taken back. -/
theorem onTape_undo : o.undo.onTape (o.onTape t) = t := by
  cases o with
  | right => rw [Op.undo, Op.onTape, Op.onTape, left_eq, right_eq, move_move, Int.add_right_neg,
      move_zero]
  | left => rw [Op.undo, Op.onTape, Op.onTape, left_eq, right_eq, move_move, Int.add_left_neg,
      move_zero]
  | increment =>
    rw [Op.undo, Op.onTape, Op.onTape]
    apply modify_modify
    intro v
    exact UInt8.add_sub_cancel v 1
  | decrement =>
    rw [Op.undo, Op.onTape, Op.onTape]
    apply modify_modify
    intro v
    exact UInt8.sub_add_cancel v 1
  | output | input => simp [Op.undo, Op.onTape]

/-- Operations that have been carried out can be taken back, the last one first. -/
theorem after_undoing : (t.after ops).after (Op.undoing ops) = t := by
  induction ops generalizing t with
  | nil => simp [Op.undoing]
  | cons o ops ih =>
    have hlast : Op.undoing (o :: ops) = Op.undoing ops ++ [o.undo] := by simp [Op.undoing]
    rw [after_cons, hlast, after_append, ih, after_cons, after_nil, onTape_undo]

end Tape

/-! ## Execution -/

/-- Operations with their places, as statements. -/
def Node.row (code : List (Op × Option Location)) : List Node := code.map fun a => .op a.1 a.2

/-- The sink takes so many writes more. -/
def Sink.Takes (k : Sink) (count : Nat) : Prop := ∀ i < count, k.refusal (k.calls + i) = none

theorem Sink.takes_zero (k : Sink) : k.Takes 0 := fun _ hi => absurd hi (Nat.not_lt_zero _)

theorem Sink.Takes.mono {k : Sink} {m n : Nat} (h : k.Takes n) (hle : m ≤ n) : k.Takes m :=
  fun i hi => h i (Nat.lt_of_lt_of_le hi hle)

variable {L : Type}

namespace Interp

/-- Operations have been carried out on a tape. -/
structure CarriedOut (t : Tape) (ops : List Op) (s u : Interp L) : Prop where
  hooks : u.hooks = s.hooks
  steps : u.steps = s.steps + ops.length
  work : u.work = some (t.after ops)
  refusal : u.sink.refusal = s.sink.refusal
  calls : u.sink.calls = s.sink.calls + ops.count .output
  text : u.sink.text = s.sink.text ++ String.ofList (t.writes ops)

variable {s u v : Interp L} {t : Tape} {as bs : List Op}

theorem CarriedOut.refl (h : s.work = some t) : CarriedOut t [] s s := by
  constructor <;> simp [h, Tape.writes]

theorem CarriedOut.trans (h : CarriedOut t as s u) (h' : CarriedOut (t.after as) bs u v) :
    CarriedOut t (as ++ bs) s v where
  hooks := h'.hooks.trans h.hooks
  steps := by rw [h'.steps, h.steps, List.length_append, Nat.add_assoc]
  work := by rw [h'.work, Tape.after_append]
  refusal := h'.refusal.trans h.refusal
  calls := by rw [h'.calls, h.calls, List.count_append, Nat.add_assoc]
  text := by
    rw [h'.text, h.text, Tape.writes_append, String.ofList_append, String.append_assoc]

/-- What a sink takes in all it takes of the second part when it has taken the first. -/
theorem CarriedOut.takes (h : CarriedOut t as s u) {n : Nat}
    (htakes : s.sink.Takes (as.count .output + n)) : u.sink.Takes n := by
  intro i hi
  rw [h.refusal, h.calls, Nat.add_assoc]
  exact htakes _ (Nat.add_lt_add_left hi _)

theorem work_alter (h : s.work = some t) (f : Tape → Tape) : (s.alter f).work = some (f t) := by
  unfold work at h ⊢
  unfold alter
  cases hb : s.bench with
  | some b =>
    rw [hb] at h
    cases h
    rfl
  | none =>
    rw [hb] at h
    have htape : s.tape = some t := h
    simp [htape]

theorem cell_of_work (h : s.work = some t) : s.cell = t.current := by
  rw [cell, h]

/-- Operations that neither read nor write change the tape. -/
theorem operate_onTape (s : Interp L) {o : Op} (hin : o ≠ .input) (hout : o ≠ .output)
    (l : Option Location) : s.operate o l = .ok (s.alter o.onTape) := by
  cases o with
  | left | right | increment | decrement => rfl
  | output => exact absurd rfl hout
  | input => exact absurd rfl hin

/-- A text is written, or the sink refuses it. -/
theorem emit_cases (s : Interp L) (text : String) :
    s.emit text = .ok { s with sink := s.sink.taken text } ∨
      ¬s.sink.Takes 1 ∧ ∃ halt, s.emit text = .error halt := by
  rw [emit]
  cases hrefusal : s.sink.refusal s.sink.calls with
  | none => exact .inl rfl
  | some stop =>
    refine .inr ⟨fun htakes => ?_, _, rfl⟩
    cases hrefusal.symm.trans (htakes 0 Nat.one_pos)

/-- An operation other than `,` is carried out, or it is a `.` that the sink refuses. -/
theorem operate_cases (h : s.work = some t) {o : Op} (hin : o ≠ .input) (l : Option Location) :
    (∃ u, (s.start (.op o l)).operate o l = .ok u ∧ CarriedOut t [o] s u) ∨
      ¬s.sink.Takes ([o].count .output) ∧
        ∃ halt, (s.start (.op o l)).operate o l = .error halt := by
  have hwork : (s.start (.op o l)).work = some t := h
  have hsink : (s.start (.op o l)).sink = s.sink := rfl
  by_cases hout : o = .output
  · subst hout
    have hcell := cell_of_work hwork
    rw [operate, hcell]
    rcases (s.start (.op .output l)).emit_cases (String.singleton (Char.ofNat t.current.toNat)) with
      hwrite | ⟨hfull, hwrite⟩
    · refine .inl ⟨_, hwrite, ?_⟩
      constructor
      · rfl
      · rfl
      · rw [Tape.after_cons, Tape.after_nil]
        exact hwork
      · rfl
      · rfl
      · have hwrites : t.writes [.output] = [Char.ofNat t.current.toNat] := by simp [Tape.writes]
        rw [hwrites, ← String.singleton_eq_ofList]
        rfl
    · exact .inr ⟨by simpa [hsink] using hfull, hwrite⟩
  · have hop := operate_onTape (s.start (.op o l)) hin hout l
    obtain ⟨tape, bench, sink, -, hsame⟩ := operate_ok hop
    refine .inl ⟨_, hop, ?_⟩
    constructor
    · rw [hsame]
      rfl
    · rw [hsame]
      rfl
    · rw [work_alter hwork, Tape.after_cons, Tape.after_nil]
    · rw [sink_alter, hsink]
    · rw [sink_alter, hsink]
      simp [hout]
    · rw [sink_alter, hsink]
      simp [Tape.writes, hout]

end Interp

variable [Listener L] {s : Interp L} {t : Tape} {code : List (Op × Option Location)}

/-- Execution of a row of operations finishes when all have been carried out, or stops at a `.` that
the sink refuses. -/
theorem Config.endsIn_row (hs : s.hooks = #[]) (ht : s.work = some t)
    (hin : .input ∉ code.map Prod.fst) :
    (∃ u, EndsIn ⟨s, Node.row code, false, []⟩ (.finished u) ∧
        s.CarriedOut t (code.map Prod.fst) u) ∨
      ¬s.sink.Takes ((code.map Prod.fst).count .output) ∧
        ∃ halt, EndsIn ⟨s, Node.row code, false, []⟩ (.stopped halt) := by
  induction code generalizing s t with
  | nil =>
    refine .inl ⟨s, ?_, .refl ht⟩
    rw [endsIn_finished_iff]
    exact ⟨1, rfl⟩
  | cons a code ih =>
    obtain ⟨o, l⟩ := a
    rw [List.map_cons, List.mem_cons, not_or] at hin
    obtain ⟨ho, hin⟩ := hin
    have hstep : step ⟨s, .op o l :: Node.row code, false, []⟩ =
        .ofResult ((s.start (.op o l)).operate o l) fun u => ⟨u, Node.row code, false, []⟩ :=
      step_op hs o l
    have hrow : Node.row ((o, l) :: code) = .op o l :: Node.row code := rfl
    have hcount : (((o, l) :: code).map Prod.fst).count .output =
        [o].count .output + (code.map Prod.fst).count .output := by
      rw [List.map_cons, ← List.singleton_append, List.count_append]
    rw [hrow, hcount]
    rcases Interp.operate_cases ht (Ne.symm ho) l with ⟨u, hu, hfirst⟩ | ⟨hfull, halt, hhalt⟩
    · rw [hu] at hstep
      simp only [endsIn_of_step hstep]
      rcases ih (hfirst.hooks.trans hs) hfirst.work hin with ⟨v, hv, hrest⟩ | ⟨hfull, hstops⟩
      · exact .inl ⟨v, hv, hfirst.trans hrest⟩
      · exact .inr ⟨fun htakes => hfull (hfirst.takes htakes), hstops⟩
    · refine .inr ⟨fun htakes => hfull (htakes.mono (Nat.le_add_right _ _)), halt, trivial, 1, ?_⟩
      rw [advance, hstep, hhalt]
      rfl

namespace Interp

/-- A row of operations is executed to its end if the sink takes what it writes, and whenever that
is so, the operations have been carried out. -/
theorem executes_row (hs : s.hooks = #[]) (ht : s.work = some t)
    (hin : .input ∉ code.map Prod.fst) :
    (s.sink.Takes ((code.map Prod.fst).count .output) →
        ∃ u, s.Executes (Node.row code) (.finished u)) ∧
      ∀ u, s.Executes (Node.row code) (.finished u) → s.CarriedOut t (code.map Prod.fst) u := by
  simp only [executes_iff hs]
  rcases Config.endsIn_row hs ht hin with ⟨v, hv, hcarried⟩ | ⟨hfull, halt, hhalt⟩
  · refine ⟨fun _ => ⟨v, hv⟩, ?_⟩
    intro u hu
    cases hu.unique hv
    exact hcarried
  · refine ⟨fun htakes => absurd htakes hfull, ?_⟩
    intro u hu
    cases hu.unique hhalt

/-- The effect of a row of operations, told without executing them. The pointer has moved as far as
the moves lead on balance, every cell holds what has been added to it less what has been taken from
it, and each `.` has written what the operations before it leave in the current cell. A row that
writes nothing is taken back by undoing its operations in reverse. -/
theorem executes_row_balance (s : Interp L) (hs : s.hooks = #[]) {t : Tape} (ht : s.work = some t)
    (code : List (Op × Option Location)) (hin : .input ∉ code.map Prod.fst) :
    let ops := code.map Prod.fst
    (s.sink.Takes (ops.count .output) → ∃ u, s.Executes (Node.row code) (.finished u)) ∧
      (∀ u, s.Executes (Node.row code) (.finished u) →
        u.steps = s.steps + code.length ∧
          ∃ t' new, u.work = some t' ∧ t'.length = t.length ∧ t'.pointer.val = t.pointed ops ∧
            (∀ c < t.length, (t'.around c).toNat = t.tallied ops c) ∧
            u.sink.text = s.sink.text ++ String.ofList new ∧ new.length = ops.count .output ∧
            ∀ as bs, ops = as ++ .output :: bs →
              ∃ a, new[as.count .output]? = some a ∧ a.toNat = t.tallied as (t.pointed as)) ∧
      (.output ∉ ops → ∀ back, back.map Prod.fst = Op.undoing ops →
        ∃ u, s.Executes (Node.row (code ++ back)) (.finished u) ∧ u.work = some t) := by
  intro ops
  obtain ⟨hfinishes, hcarried⟩ := executes_row hs ht hin
  refine ⟨hfinishes, ?_, ?_⟩
  · intro u hu
    have h := hcarried u hu
    refine ⟨by rw [h.steps, List.length_map], t.after ops, t.writes ops, h.work,
      t.length_after ops, t.pointer_after ops, ?_, h.text, t.length_writes ops, ?_⟩
    · intro c hc
      exact t.toNat_around_after ops hc
    · intro as bs hops
      refine ⟨_, by rw [hops, Tape.getElem?_writes], ?_⟩
      rw [Text.toNat_ofNat, Tape.toNat_current_after]
  · intro hout back hback
    have hops : (code ++ back).map Prod.fst = ops ++ Op.undoing ops := by
      rw [List.map_append, hback]
    have hin' : .input ∉ (code ++ back).map Prod.fst := by
      rw [hops, List.mem_append, Op.mem_undoing]
      exact fun h => h.elim hin hin
    have hquiet : ((code ++ back).map Prod.fst).count .output = 0 := by
      rw [hops, List.count_eq_zero, List.mem_append, Op.mem_undoing]
      simpa [Op.undo] using hout
    obtain ⟨hfinishes, hcarried⟩ := executes_row hs ht hin'
    obtain ⟨u, hu⟩ := hfinishes (hquiet ▸ s.sink.takes_zero)
    have hwork := (hcarried u hu).work
    rw [hops, Tape.after_append, Tape.after_undoing] at hwork
    exact ⟨u, hu, hwork⟩

/-- On two cells, with the pointer at the second, `>+.<-.` wraps with each move and each count, and
fills a sink that has room for two writes. Without the `.` it is taken back by `+>-<`. -/
theorem executes_row_balance_wrapping :
    let t : Tape := ⟨2, #v[255, 0], 1⟩
    let s : Interp Script :=
      { tape := some t,
        sink := { Sink.closing 2 (.failure (.named "OSError" "disk full")) with text := "a" } }
    let unplaced (ops : List Op) : List (Op × Option Location) := ops.map fun o => (o, none)
    let code := unplaced [.right, .increment, .output, .left, .decrement, .output]
    let silent := unplaced [.right, .increment, .left, .decrement]
    s.hooks = #[] ∧ s.work = some t ∧ .input ∉ code.map Prod.fst ∧ .input ∉ silent.map Prod.fst ∧
      (∃ u t' new, s.Executes (Node.row code) (.finished u) ∧ u.steps = 6 ∧ u.work = some t' ∧
        t'.length = 2 ∧ t'.pointer.val = 1 ∧ (t'.around 0).toNat = 0 ∧ (t'.around 1).toNat = 255 ∧
        u.sink.text = "a" ++ String.ofList new ∧ new.map Char.toNat = [0, 255]) ∧
      ∃ u, s.Executes (Node.row (silent ++ unplaced [.increment, .right, .decrement, .left]))
        (.finished u) ∧ u.work = some t := by
  intro t s unplaced code silent
  have hin : .input ∉ code.map Prod.fst := by decide
  have hin' : .input ∉ silent.map Prod.fst := by decide
  have htakes : s.sink.Takes ((code.map Prod.fst).count .output) := by
    intro i hi
    exact if_pos ((Nat.zero_add i).symm ▸ hi)
  obtain ⟨hfinishes, heffect, -⟩ := executes_row_balance s rfl rfl code hin
  obtain ⟨u, hu⟩ := hfinishes htakes
  obtain ⟨hsteps, t', new, hwork, hlength, hpointer, hcells, htext, hcount, hwritten⟩ :=
    heffect u hu
  obtain ⟨a, ha, hfirst⟩ := hwritten [.right, .increment] [.left, .decrement, .output] rfl
  obtain ⟨b, hb, hsecond⟩ := hwritten [.right, .increment, .output, .left, .decrement] [] rfl
  have hnew : new = [a, b] := by
    match new, hcount with
    | [x, y], _ =>
      cases ha
      cases hb
      rfl
  have hcodes : new.map Char.toNat = [0, 255] := by
    have hzero : a.toNat = 0 := Int.ofNat_inj.1 (hfirst.trans (by decide))
    have hlast : b.toNat = 255 := Int.ofNat_inj.1 (hsecond.trans (by decide))
    rw [hnew, List.map_cons, List.map_singleton, hzero, hlast]
  have hpointed : t'.pointer.val = 1 := Int.ofNat_inj.1 (hpointer.trans (by decide))
  have hleft : (t'.around 0).toNat = 0 :=
    Int.ofNat_inj.1 ((hcells 0 (by decide)).trans (by decide))
  have hright : (t'.around 1).toNat = 255 :=
    Int.ofNat_inj.1 ((hcells 1 (by decide)).trans (by decide))
  obtain ⟨v, hv, hrestored⟩ :=
    (executes_row_balance s rfl rfl silent hin').2.2 (by decide)
      (unplaced [.increment, .right, .decrement, .left]) (by decide)
  exact ⟨rfl, rfl, hin, hin', ⟨u, t', new, hu, hsteps, hwork, hlength, hpointed, hleft, hright,
    htext, hcodes⟩, v, hv, hrestored⟩

end Interp

end TapeLang
