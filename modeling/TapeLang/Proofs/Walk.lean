import TapeLang.Proofs.Written
import TapeLang.Proofs.Texts
import TapeLang.Tape

/-!
# Walking over flat code

The plainest machine for the language walks an instruction pointer over the characters of its code
and jumps from bracket to partner. Its memory is a ring of numbers, with remainders in place of
limits. It knows no statements, frames or listeners.
-/

namespace TapeLang

/-- A ring of numbers below 256, one of them current. -/
@[ext] structure Ring where
  length : Nat
  pointer : Nat
  cells : Nat → Nat

namespace Ring

def current (r : Ring) : Nat := r.cells r.pointer

/-- Move the pointer, modulo the length. -/
def move (k : Int) (r : Ring) : Ring :=
  { r with pointer := ((r.pointer + k) % r.length).toNat }

/-- Add to the current number, modulo 256. -/
def add (k : Int) (r : Ring) : Ring :=
  { r with cells := fun i => if i = r.pointer then ((r.cells i + k) % 256).toNat else r.cells i }

/-- The ring that a tape holds; there is nothing outside the tape. -/
def ofTape (t : Tape) : Ring where
  length := t.length
  pointer := t.pointer
  cells i := if h : i < t.length then t.cells[i].toNat else 0

@[simp] theorem current_ofTape (t : Tape) : (ofTape t).current = t.current.toNat := by
  simp only [current, ofTape, dif_pos t.pointer.isLt, Tape.current]

theorem ofTape_right (t : Tape) : ofTape t.right = (ofTape t).move 1 := by
  have hmod : (t.pointer.val + 1) % t.length = (((t.pointer.val : Int) + 1) % t.length).toNat := by
    rw [← Int.natCast_one, ← Int.natCast_add, ← Int.natCast_emod, Int.toNat_natCast]
  exact Ring.ext rfl hmod rfl

theorem ofTape_left (t : Tape) : ofTape t.left = (ofTape t).move (-1) := by
  have hp := t.pointer.isLt
  have hmod : (t.pointer.val + (t.length - 1)) % t.length =
      (((t.pointer.val : Int) + -1) % t.length).toNat := by
    have he : (t.pointer.val : Int) + -1 + t.length =
        ((t.pointer.val + (t.length - 1) : Nat) : Int) := by omega
    rw [← Int.add_emod_right, he, ← Int.natCast_emod, Int.toNat_natCast]
  exact Ring.ext rfl hmod rfl

/-- Changing a cell of the tape changes the same number of the ring. -/
theorem ofTape_modify {f : UInt8 → UInt8} {k : Int}
    (h : ∀ v : UInt8, (f v).toNat = (((v.toNat : Int) + k) % 256).toNat) (t : Tape) :
    ofTape (t.modify f) = (ofTape t).add k := by
  obtain ⟨length, cells, pointer⟩ := t
  refine Ring.ext rfl rfl (funext fun i => ?_)
  show (if _ : i < length then (cells.set pointer.val (f cells[pointer.val]))[i].toNat else 0) =
    if i = pointer.val then
      ((((if _ : i < length then cells[i].toNat else 0 : Nat) : Int) + k) % 256).toNat
    else if _ : i < length then cells[i].toNat else 0
  by_cases hi : i < length
  · rw [dif_pos hi, dif_pos hi]
    by_cases he : i = pointer.val
    · subst he
      rw [if_pos rfl, Vector.getElem_set_self, h]
    · rw [if_neg he, Vector.getElem_set_ne _ _ (Ne.symm he)]
  · have hne : i ≠ pointer.val := fun he => hi (he ▸ pointer.isLt)
    rw [dif_neg hi, dif_neg hi, if_neg hne]

theorem ofTape_increment (t : Tape) : ofTape (t.modify (· + 1)) = (ofTape t).add 1 := by
  refine ofTape_modify (fun v => ?_) t
  rw [UInt8.toNat_add]
  rfl

theorem ofTape_decrement (t : Tape) : ofTape (t.modify (· - 1)) = (ofTape t).add (-1) := by
  refine ofTape_modify (fun v => ?_) t
  have := v.toNat_lt
  rw [UInt8.toNat_sub]
  simp
  omega

end Ring

/-- The walking machine: where it is, what it holds, what it has written, and how many instructions
other than closing brackets it has started. -/
structure Walk where
  ip : Nat := 0
  ring : Ring
  output : List Char := []
  started : Nat := 0

/-- What walking leads to. -/
inductive Walk.Outcome where
  | walking (w : Walk)
  /-- The end of the code is reached. -/
  | ended (w : Walk)
  /-- The walk stops at an instruction that asks for input. -/
  | refused (w : Walk)

namespace Walk

/-- The index behind a partner; without one the walk goes on with the next instruction. -/
def behind (i : Nat) : Option (Char × Nat) → Nat
  | some b => b.2 + 1
  | none => i + 1

/-- Where an opening bracket leads: into the loop, or behind its partner when the number is zero. -/
def enter (code : List Char) (w : Walk) : Nat :=
  if w.ring.current = 0 then behind w.ip ((Text.brackets code).closing? ('[', w.ip)) else w.ip + 1

/-- Where a closing bracket leads: out of the loop, or behind its partner unless the number is
zero. -/
def again (code : List Char) (w : Walk) : Nat :=
  if w.ring.current = 0 then w.ip + 1 else behind w.ip ((Text.brackets code).opening? (']', w.ip))

/-- Start an operation and go on to the next instruction. -/
def next (w : Walk) : Walk := { w with ip := w.ip + 1, started := w.started + 1 }

/-- Carry out one instruction. -/
def step (code : List Char) (w : Walk) : Outcome :=
  match code[w.ip]? with
  | none => .ended w
  | some c =>
    match c with
    | '>' => .walking { w.next with ring := w.ring.move 1 }
    | '<' => .walking { w.next with ring := w.ring.move (-1) }
    | '+' => .walking { w.next with ring := w.ring.add 1 }
    | '-' => .walking { w.next with ring := w.ring.add (-1) }
    | '.' => .walking { w.next with output := w.output ++ [Char.ofNat w.ring.current] }
    | ',' => .refused { w with started := w.started + 1 }
    | '[' => .walking { w with ip := w.enter code, started := w.started + 1 }
    | ']' => .walking { w with ip := w.again code }
    | _ => .walking { w with ip := w.ip + 1 }

/-- Walk for a number of instructions, or until the walk is over. -/
def run (code : List Char) : Nat → Walk → Outcome
  | 0, w => .walking w
  | n + 1, w =>
    match w.step code with
    | .walking w => run code n w
    | r => r

/-- The walk is over. -/
def Outcome.Settled : Outcome → Prop
  | .walking _ => False
  | _ => True

/-- A walk ends in an outcome. -/
def EndsIn (code : List Char) (w : Walk) (r : Outcome) : Prop :=
  r.Settled ∧ ∃ n, run code n w = r

theorem run_stable {code : List Char} {n : Nat} {w : Walk} (h : (run code n w).Settled) (k : Nat) :
    run code (n + k) w = run code n w := by
  induction n generalizing w with
  | zero => exact h.elim
  | succ n ih =>
    rw [Nat.add_right_comm, run, run]
    rw [run] at h
    cases hs : w.step code with
    | walking w' =>
      rw [hs] at h
      exact ih h
    | ended w' => rfl
    | refused w' => rfl

end Walk

end TapeLang
