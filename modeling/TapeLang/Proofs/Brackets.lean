import Mathlib.Data.List.Nodup
import TapeLang.Token

/-!
# Matching brackets

Brackets are matched with a stack, in one pass from left to right: an opening bracket goes on the
stack, a closing bracket is paired with the one on top, and a closing bracket that finds the stack
empty is passed over. The items may be anything that has a token kind, so that tokens, characters
of a text and instructions of flat code are matched by the same rule.

`Nested` describes the item lists in which every opening bracket finds its partner. Matching leaves
the stack as it was over such a list, and the greatest level among the pairs it adds is the nesting
depth of the list.
-/

namespace TapeLang

/-- Two brackets that belong together. -/
structure Pair (α : Type) where
  opening : α
  closing : α
  /-- How many brackets were open when the pair was closed, its own one included. -/
  level : Nat
  deriving DecidableEq, Repr

/-- Matching under way. -/
structure Brackets (α : Type) where
  /-- The brackets that are open, the innermost first. -/
  opened : List α := []
  /-- The pairs found so far, the last one first. -/
  pairs : List (Pair α) := []
  deriving Repr

namespace Brackets

variable {α β : Type}

/-- Take notice of one more item. -/
def read (kind : α → Token.Kind) (m : Brackets α) (a : α) : Brackets α :=
  match kind a with
  | .opening => { m with opened := a :: m.opened }
  | .closing =>
    match m.opened with
    | [] => m
    | b :: rest => ⟨rest, ⟨b, a, rest.length + 1⟩ :: m.pairs⟩
  | _ => m

/-- Match the brackets of a list of items. -/
def readAll (kind : α → Token.Kind) (m : Brackets α) (as : List α) : Brackets α :=
  as.foldl (read kind) m

/-- The partner of an opening bracket. -/
def closing? [DecidableEq α] (m : Brackets α) (a : α) : Option α :=
  (m.pairs.find? fun p => p.opening = a).map Pair.closing

/-- The partner of a closing bracket. -/
def opening? [DecidableEq α] (m : Brackets α) (a : α) : Option α :=
  (m.pairs.find? fun p => p.closing = a).map Pair.opening

/-- The pairs that lie before every bracket left open; all pairs, when none is left open. -/
def settled (m : Brackets Nat) : List (Pair Nat) :=
  m.pairs.filter fun p => m.opened.all fun u => p.closing < u

/-- The leftmost bracket that is left open. -/
def leftmost? (m : Brackets Nat) : Option Nat := m.opened.min?

/-- Name the items anew. -/
def map (f : α → β) (m : Brackets α) : Brackets β :=
  ⟨m.opened.map f, m.pairs.map fun p => ⟨f p.opening, f p.closing, p.level⟩⟩

variable {kind : α → Token.Kind} {m : Brackets α} {a : α}

theorem read_opening (h : kind a = .opening) :
    m.read kind a = ⟨a :: m.opened, m.pairs⟩ := by
  simp only [read, h]

theorem read_closing {b : α} {rest : List α} {ps : List (Pair α)} (h : kind a = .closing) :
    read kind ⟨b :: rest, ps⟩ a = ⟨rest, ⟨b, a, rest.length + 1⟩ :: ps⟩ := by
  simp only [read, h]

/-- With nothing open, a closing bracket is passed over. -/
theorem read_stray (h : kind a = .closing) (hm : m.opened = []) : m.read kind a = m := by
  simp only [read, h, hm]

/-- Items other than brackets change nothing. -/
theorem read_pass (ho : kind a ≠ .opening) (hc : kind a ≠ .closing) : m.read kind a = m := by
  unfold read
  split
  · next h => exact absurd h ho
  · next h => exact absurd h hc
  · rfl

@[simp] theorem readAll_nil : m.readAll kind [] = m := rfl

@[simp] theorem readAll_cons (as : List α) :
    m.readAll kind (a :: as) = (m.read kind a).readAll kind as := rfl

theorem readAll_append (as bs : List α) :
    m.readAll kind (as ++ bs) = (m.readAll kind as).readAll kind bs := List.foldl_append

/-- Items other than brackets may be left out. -/
theorem readAll_filter (keep : α → Bool) (as : List α)
    (h : ∀ a ∈ as, keep a = false → kind a ≠ .opening ∧ kind a ≠ .closing) :
    m.readAll kind (as.filter keep) = m.readAll kind as := by
  induction as generalizing m with
  | nil => rfl
  | cons a as ih =>
    have hrest := fun b hb => h b (List.mem_cons_of_mem a hb)
    cases hk : keep a with
    | true =>
      rw [List.filter_cons_of_pos hk, readAll_cons, readAll_cons]
      exact ih hrest
    | false =>
      obtain ⟨ho, hc⟩ := h a List.mem_cons_self hk
      rw [List.filter_cons_of_neg (by simp [hk]), readAll_cons, read_pass ho hc]
      exact ih hrest

theorem read_map (kind : β → Token.Kind) (f : α → β) (m : Brackets α) (a : α) :
    (m.map f).read kind (f a) = (m.read (kind ∘ f) a).map f := by
  obtain ⟨opened, pairs⟩ := m
  unfold read map
  cases h : kind (f a) <;> cases opened <;> simp [h]

/-- Matching does not depend on how the items are named. -/
theorem readAll_map (kind : β → Token.Kind) (f : α → β) (m : Brackets α) (as : List α) :
    (m.map f).readAll kind (as.map f) = (m.readAll (kind ∘ f) as).map f := by
  induction as generalizing m with
  | nil => rfl
  | cons a as ih =>
    rw [List.map_cons, readAll_cons, readAll_cons, read_map]
    exact ih _

/-- Kinds that agree on the items lead to the same pairs. -/
theorem readAll_congr {kind' : α → Token.Kind} {as : List α} (h : ∀ a ∈ as, kind a = kind' a)
    (m : Brackets α) : m.readAll kind as = m.readAll kind' as := by
  induction as generalizing m with
  | nil => rfl
  | cons a as ih =>
    have hread : m.read kind a = m.read kind' a := by
      rw [read, read, h a List.mem_cons_self]
    rw [readAll_cons, readAll_cons, hread]
    exact ih (fun b hb => h b (List.mem_cons_of_mem a hb)) _

variable (kind) in
/-- One item opens at most itself and closes at most a pair that ends with itself. -/
theorem mem_read (m : Brackets α) (a : α) :
    (∀ x ∈ (m.read kind a).opened, x ∈ m.opened ∨ x = a) ∧
      ∀ p ∈ (m.read kind a).pairs, p ∈ m.pairs ∨ p.closing = a := by
  unfold read
  split
  · exact ⟨fun x hx => (List.mem_cons.1 hx).symm, fun p hp => Or.inl hp⟩
  · split
    · next h => exact ⟨fun x hx => by rw [h] at hx; simp at hx, fun p hp => Or.inl hp⟩
    · next h =>
      refine ⟨fun x hx => Or.inl (by rw [h]; exact List.mem_cons_of_mem _ hx), ?_⟩
      intro p hp
      rcases List.mem_cons.1 hp with rfl | hp
      · exact Or.inr rfl
      · exact Or.inl hp
  · exact ⟨fun x hx => Or.inl hx, fun p hp => Or.inl hp⟩

variable (kind) in
/-- Whatever is open or paired in the end was so before, or was read. -/
theorem mem_readAll (m : Brackets α) (as : List α) :
    (∀ x ∈ (m.readAll kind as).opened, x ∈ m.opened ∨ x ∈ as) ∧
      ∀ p ∈ (m.readAll kind as).pairs, p ∈ m.pairs ∨ p.closing ∈ as := by
  induction as generalizing m with
  | nil => exact ⟨fun x hx => Or.inl hx, fun p hp => Or.inl hp⟩
  | cons a as ih =>
    obtain ⟨hopen, hpair⟩ := ih (m.read kind a)
    obtain ⟨hopen', hpair'⟩ := mem_read kind m a
    rw [readAll_cons]
    constructor
    · intro x hx
      rcases hopen x hx with hx | hx
      · rcases hopen' x hx with hx | rfl
        · exact Or.inl hx
        · exact Or.inr List.mem_cons_self
      · exact Or.inr (List.mem_cons_of_mem a hx)
    · intro p hp
      rcases hpair p hp with hp | hp
      · rcases hpair' p hp with hp | hp
        · exact Or.inl hp
        · exact Or.inr (hp ▸ List.mem_cons_self)
      · exact Or.inr (List.mem_cons_of_mem a hp)

variable (kind) in
/-- Pairs once found are kept. -/
theorem pairs_subset_readAll (m : Brackets α) (as : List α) :
    m.pairs ⊆ (m.readAll kind as).pairs := by
  induction as generalizing m with
  | nil => exact fun _ hp => hp
  | cons a as ih =>
    intro p hp
    apply ih (m.read kind a)
    unfold read
    split
    · exact hp
    · split
      · exact hp
      · exact List.mem_cons_of_mem _ hp
    · exact hp

/-! ## Distinct items -/

variable (kind) in
/-- Reading moves an item to the stack or off it, so distinct items are never paired twice. -/
theorem nodup_readAll (m : Brackets α) (as : List α)
    (ho : (m.opened ++ m.pairs.map Pair.opening ++ as).Nodup)
    (hc : (m.pairs.map Pair.closing ++ as).Nodup) :
    ((m.readAll kind as).pairs.map Pair.opening).Nodup ∧
      ((m.readAll kind as).pairs.map Pair.closing).Nodup := by
  induction as generalizing m with
  | nil =>
    rw [List.append_nil] at ho hc
    exact ⟨(List.nodup_append.1 ho).2.1, hc⟩
  | cons a as ih =>
    rw [readAll_cons]
    have ho' := ho.sublist (List.Sublist.append_left (List.sublist_cons_self a as) _)
    have hc' := hc.sublist (List.Sublist.append_left (List.sublist_cons_self a as) _)
    unfold read
    split
    · refine ih _ ?_ hc'
      exact (List.perm_middle.nodup_iff).1 ho
    · cases hm : m.opened with
      | nil => exact ih m ho' hc'
      | cons b rest =>
        rw [hm] at ho'
        refine ih ⟨rest, ⟨b, a, rest.length + 1⟩ :: m.pairs⟩ ?_ ?_
        · refine (List.Perm.nodup_iff ?_).1 ho'
          exact (List.perm_middle.append_right as).symm
        · exact (List.perm_middle.nodup_iff).1 hc
    · exact ih m ho' hc'

private theorem find?_key {γ δ : Type} [DecidableEq δ] {key : γ → δ} {ps : List γ} {p : γ}
    (hn : (ps.map key).Nodup) (hp : p ∈ ps) : ps.find? (fun q => key q = key p) = some p := by
  induction ps with
  | nil => exact absurd hp List.not_mem_nil
  | cons q ps ih =>
    rw [List.map_cons, List.nodup_cons] at hn
    rcases List.mem_cons.1 hp with rfl | hp
    · exact List.find?_cons_of_pos (by simp)
    · have hne : key q ≠ key p := fun he => hn.1 (he ▸ List.mem_map_of_mem hp)
      rw [List.find?_cons_of_neg (by simpa using hne)]
      exact ih hn.2 hp

/-- Among distinct items the brackets of a pair are partners of each other. -/
theorem partners_of_mem [DecidableEq α] {as : List α} (hn : as.Nodup) {p : Pair α}
    (hp : p ∈ (readAll kind {} as).pairs) :
    (readAll kind {} as).closing? p.opening = some p.closing ∧
      (readAll kind {} as).opening? p.closing = some p.opening := by
  obtain ⟨ho, hc⟩ := nodup_readAll kind {} as (by simpa using hn) (by simpa using hn)
  constructor
  · rw [closing?, find?_key ho hp]
    rfl
  · rw [opening?, find?_key hc hp]
    rfl

end Brackets

/-! ## Nested lists -/

variable {α β : Type} {kind : α → Token.Kind}

/-- The lists of items, nested `depth` deep, in which every opening bracket finds its partner.
With `top`, closing brackets with nothing to close may stand outside all loops. -/
inductive Nested (kind : α → Token.Kind) : (top : Bool) → (depth : Nat) → List α → Prop where
  | nil (top : Bool) : Nested kind top 0 []
  | pass {top : Bool} {d : Nat} {a : α} {as : List α} (ho : kind a ≠ .opening)
      (hc : kind a ≠ .closing) (rest : Nested kind top d as) : Nested kind top d (a :: as)
  | stray {d : Nat} {a : α} {as : List α} (hc : kind a = .closing)
      (rest : Nested kind true d as) : Nested kind true d (a :: as)
  | loop {top : Bool} {d e : Nat} {a b : α} {as bs : List α} (ho : kind a = .opening)
      (body : Nested kind false d as) (hc : kind b = .closing) (rest : Nested kind top e bs) :
      Nested kind top (max (d + 1) e) (a :: (as ++ b :: bs))

namespace Nested

/-- Matching over a nested list leaves the stack as it was; the pairs it adds are as deep as the
list. -/
theorem readAll {top : Bool} {d : Nat} {as : List α} (h : Nested kind top d as) (m : Brackets α)
    (hm : top = true → m.opened = []) :
    ∃ ps, m.readAll kind as = ⟨m.opened, ps ++ m.pairs⟩ ∧ (∀ p ∈ ps, p.closing ∈ as) ∧
      ∀ k, (∀ p ∈ ps, p.level ≤ m.opened.length + k) ↔ d ≤ k := by
  induction h generalizing m with
  | nil top => exact ⟨[], rfl, by simp, by simp⟩
  | pass ho hc _ ih =>
    obtain ⟨ps, he, hmem, hlevel⟩ := ih m hm
    refine ⟨ps, ?_, fun p hp => List.mem_cons_of_mem _ (hmem p hp), hlevel⟩
    rw [Brackets.readAll_cons, Brackets.read_pass ho hc, he]
  | stray hc _ ih =>
    obtain ⟨ps, he, hmem, hlevel⟩ := ih m hm
    refine ⟨ps, ?_, fun p hp => List.mem_cons_of_mem _ (hmem p hp), hlevel⟩
    rw [Brackets.readAll_cons, Brackets.read_stray hc (hm rfl), he]
  | @loop top d e a b as bs ho _ hc _ ihBody ihRest =>
    obtain ⟨ps, he, hmem, hlevel⟩ := ihBody ⟨a :: m.opened, m.pairs⟩ (by simp)
    let own : Pair α := ⟨a, b, m.opened.length + 1⟩
    obtain ⟨qs, he', hmem', hlevel'⟩ := ihRest ⟨m.opened, own :: (ps ++ m.pairs)⟩ hm
    refine ⟨qs ++ own :: ps, ?_, ?_, fun k => ?_⟩
    · rw [Brackets.readAll_cons, Brackets.read_opening ho, Brackets.readAll_append, he,
        Brackets.readAll_cons, Brackets.read_closing hc, he']
      simp only [List.append_assoc, List.cons_append]
    · intro p hp
      rcases List.mem_append.1 hp with hp | hp
      · simp [hmem' p hp]
      · rcases List.mem_cons.1 hp with rfl | hp
        · simp [own]
        · simp [hmem p hp]
    · simp only [List.length_cons] at hlevel hlevel'
      -- The loop's own pair is one deep; the pairs of its body lie one deeper than in the body.
      have hbody : (∀ p ∈ ps, p.level ≤ m.opened.length + k) ∧ 1 ≤ k ↔ d + 1 ≤ k := by
        cases k with
        | zero => simp
        | succ k =>
          have hk := hlevel k
          rw [Nat.add_assoc, Nat.add_comm 1 k] at hk
          rw [hk]
          omega
      have hown : own.level ≤ m.opened.length + k ↔ 1 ≤ k := by
        simp only [own]
        omega
      rw [List.forall_mem_append, List.forall_mem_cons, hlevel' k, hown, Nat.max_le, ← hbody]
      exact ⟨fun ⟨he, hk, hps⟩ => ⟨⟨hps, hk⟩, he⟩, fun ⟨⟨hps, hk⟩, he⟩ => ⟨he, hk, hps⟩⟩

/-- The brackets around a nested list are a pair, whatever stands before and behind them. -/
theorem exists_pair {d : Nat} {a b : α} {bs : List α} (ho : kind a = .opening)
    (h : Nested kind false d bs) (hc : kind b = .closing) (m : Brackets α) (as cs : List α) :
    ∃ p ∈ (m.readAll kind (as ++ a :: (bs ++ b :: cs))).pairs, p.opening = a ∧ p.closing = b := by
  obtain ⟨ps, he, -, -⟩ := h.readAll ((m.readAll kind as).read kind a) (by simp)
  rw [Brackets.read_opening ho] at he
  rw [Brackets.readAll_append, Brackets.readAll_cons, Brackets.read_opening ho,
    Brackets.readAll_append, he, Brackets.readAll_cons, Brackets.read_closing hc]
  exact ⟨_, Brackets.pairs_subset_readAll kind _ cs List.mem_cons_self, rfl, rfl⟩

end Nested

/-! ## Strays -/

/-- Leave out the closing brackets that close nothing; `height` brackets are open at the start. -/
def dropStrays (kind : α → Token.Kind) (height : Nat) : List α → List α
  | [] => []
  | a :: as =>
    match kind a with
    | .opening => a :: dropStrays kind (height + 1) as
    | .closing =>
      if height = 0 then dropStrays kind 0 as else a :: dropStrays kind (height - 1) as
    | _ => a :: dropStrays kind height as

theorem dropStrays_map (kind : β → Token.Kind) (f : α → β) (height : Nat) (as : List α) :
    dropStrays kind height (as.map f) = (dropStrays (kind ∘ f) height as).map f := by
  fun_induction dropStrays (kind ∘ f) height as <;> simp_all [dropStrays]

theorem dropStrays_sublist (kind : α → Token.Kind) (height : Nat) (as : List α) :
    (dropStrays kind height as).Sublist as := by
  fun_induction dropStrays kind height as with
  | case1 => exact .slnil
  | case2 height a as _ ih => exact ih.cons_cons a
  | case3 a as _ ih => exact ih.cons a
  | case4 height a as _ _ ih => exact ih.cons_cons a
  | case5 height a as _ _ ih => exact ih.cons_cons a

/-- Whatever is no closing bracket is kept. -/
theorem filter_dropStrays {keep : α → Bool} (h : ∀ a, kind a = .closing → keep a = false)
    (height : Nat) (as : List α) : (dropStrays kind height as).filter keep = as.filter keep := by
  fun_induction dropStrays kind height as with
  | case1 => rfl
  | case2 height a as _ ih => rw [List.filter_cons, List.filter_cons, ih]
  | case3 a as hk ih => rw [ih, List.filter_cons_of_neg (by simp [h a hk])]
  | case4 height a as _ _ ih => rw [List.filter_cons, List.filter_cons, ih]
  | case5 height a as _ _ ih => rw [List.filter_cons, List.filter_cons, ih]

/-- Kinds that agree on the items leave out the same strays. -/
theorem dropStrays_congr {kind' : α → Token.Kind} {as : List α} (h : ∀ a ∈ as, kind a = kind' a)
    (height : Nat) : dropStrays kind height as = dropStrays kind' height as := by
  induction as generalizing height with
  | nil => rfl
  | cons a as ih =>
    have ih := ih fun b hb => h b (List.mem_cons_of_mem a hb)
    rw [dropStrays, dropStrays, h a List.mem_cons_self, ih, ih, ih, ih]

/-- Inside a nested list there are no strays. -/
theorem dropStrays_append {d : Nat} {as : List α} (h : Nested kind false d as) (height : Nat)
    (bs : List α) : dropStrays kind height (as ++ bs) = as ++ dropStrays kind height bs := by
  generalize hb : false = b at h
  induction h generalizing height bs with
  | nil => rfl
  | @pass _ _ a as ho hc _ ih =>
    rw [List.cons_append, dropStrays]
    split
    · next h => exact absurd h ho
    · next h => exact absurd h hc
    · rw [ih height bs hb, List.cons_append]
  | stray => cases hb
  | loop ho _ hc _ ihBody ihRest =>
    rw [List.cons_append, List.append_assoc, dropStrays, ho]
    simp only [List.cons_append, List.append_assoc]
    rw [ihBody _ _ rfl, dropStrays, hc]
    simp only [Nat.succ_ne_zero, ite_false, Nat.add_sub_cancel]
    rw [ihRest _ _ hb]

end TapeLang
