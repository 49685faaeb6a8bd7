import TapeLang.Proofs.Spelling

/-!
# Written forms

The flat form of a statement list is its written form with the place of every instruction beside
it; a closing bracket has no place. Tokens that spell a list are its flat form once stray closing
brackets and tokens of no instruction are left out. A written form determines the shape of the list
that it was written from, which is all of the list but its places.
-/

namespace TapeLang

/-- The kind of a character; commentary is of no known kind. -/
def Token.Kind.ofChar (c : Char) : Token.Kind := (Token.Kind.ofChar? c).getD .other

namespace Token.Kind

@[simp] theorem ofChar_opening : ofChar '[' = .opening := by decide

@[simp] theorem ofChar_closing : ofChar ']' = .closing := by decide

@[simp] theorem ofChar_symbol (o : Op) : ofChar o.symbol = .op o := by
  cases o <;> decide

end Token.Kind

/-- The kind of a character that has an index beside it. -/
def Text.kind (a : Char × Nat) : Token.Kind := Token.Kind.ofChar a.1

namespace Op

theorem symbol_ne_opening (o : Op) : o.symbol ≠ '[' := by
  cases o <;> decide

theorem symbol_ne_closing (o : Op) : o.symbol ≠ ']' := by
  cases o <;> decide

theorem symbol_inj {o o' : Op} (h : o.symbol = o'.symbol) : o = o' :=
  Option.some.inj ((ofChar?_symbol o).symm.trans (h ▸ ofChar?_symbol o'))

end Op

namespace Node

/-- The written form with the place of each instruction. -/
def flat : List Node → List (Char × Option Location)
  | [] => []
  | .op o l :: rest => (o.symbol, l) :: flat rest
  | .loop l body :: rest => ('[', some l) :: (flat body ++ (']', none) :: flat rest)
  | .bare _ :: rest => flat rest

/-- There are only operations and loops. -/
def Plain : List Node → Prop
  | [] => True
  | .op _ _ :: rest => Plain rest
  | .loop _ body :: rest => Plain body ∧ Plain rest
  | .bare _ :: _ => False

/-- The same statements, at whatever places. -/
inductive SameShape : List Node → List Node → Prop where
  | nil : SameShape [] []
  | op {o : Op} {l l' : Option Location} {as bs : List Node} (rest : SameShape as bs) :
      SameShape (.op o l :: as) (.op o l' :: bs)
  | loop {l l' : Location} {body body' as bs : List Node} (inside : SameShape body body')
      (rest : SameShape as bs) : SameShape (.loop l body :: as) (.loop l' body' :: bs)
  | bare {l l' : Option Location} {as bs : List Node} (rest : SameShape as bs) :
      SameShape (.bare l :: as) (.bare l' :: bs)

theorem map_fst_flat (ns : List Node) : (flat ns).map Prod.fst = written ns := by
  fun_induction flat ns <;> simp_all [written]

/-- What is written is nested as deeply as the list. -/
theorem nested_written (ns : List Node) (k : Nat) :
    Nested Text.kind false (depth ns) ((written ns).zipIdx k) := by
  fun_induction written ns generalizing k with
  | case1 =>
    rw [depth]
    exact .nil false
  | case2 o l rest ih =>
    rw [depth, List.zipIdx_cons]
    exact .pass (by simp [Text.kind]) (by simp [Text.kind]) (ih (k + 1))
  | case3 l body rest ihBody ihRest =>
    rw [depth, List.cons_append, List.zipIdx_cons, List.zipIdx_append, List.zipIdx_cons]
    exact .loop (by simp [Text.kind]) (ihBody (k + 1)) (by simp [Text.kind]) (ihRest _)
  | case4 l rest ih =>
    rw [depth]
    exact ih k

end Node

/-! ## The tokens of a list -/

namespace Source

/-- A token as an entry of a flat form, if it stands for an instruction. -/
def sign? (t : Source) (i : Nat) : Option (Char × Option Location) :=
  match t.kind i with
  | .op o => some (o.symbol, some (t.place i))
  | .opening => some ('[', some (t.place i))
  | .closing => some (']', none)
  | _ => none

end Source

namespace Spells

open Source

variable {t : Source} {top : Bool} {i j : Nat} {ns : List Node}

theorem plain (h : Spells t top i j ns) : Node.Plain ns := by
  induction h with
  | nil => rw [Node.Plain]; trivial
  | op _ _ ih => rwa [Node.Plain]
  | pass _ _ ih | stray _ _ ih => exact ih
  | loop _ _ _ _ ihBody ihRest =>
    rw [Node.Plain]
    exact ⟨ihBody, ihRest⟩

/-- Inside a loop the tokens of a list are its flat form. -/
theorem flat_eq_body (h : Spells t false i j ns) : Node.flat ns = (span i j).filterMap t.sign? := by
  generalize hb : false = b at h
  induction h with
  | nil => rw [Node.flat, span_self, List.filterMap_nil]
  | op h rest ih =>
    rw [Node.flat, ih hb, span_cons rest.le, List.filterMap_cons_some (by rw [sign?, h])]
  | pass h rest ih =>
    rw [ih hb, span_cons rest.le, List.filterMap_cons_none]
    rcases h with h | h <;> rw [sign?, h]
  | stray => cases hb
  | loop ho inside hc rest ihBody ihRest =>
    rw [Node.flat, ihBody rfl, ihRest hb, span_loop inside.le rest.le,
      List.filterMap_cons_some (by rw [sign?, ho]), List.filterMap_append,
      List.filterMap_cons_some (by rw [sign?, hc])]

/-- The tokens of a list are its flat form once strays are left out. -/
theorem flat_eq (h : Spells t top i j ns) :
    Node.flat ns = (dropStrays t.kind 0 (span i j)).filterMap t.sign? := by
  induction h with
  | nil => rw [Node.flat, span_self, dropStrays, List.filterMap_nil]
  | op h rest ih =>
    rw [Node.flat, ih, span_cons rest.le, dropStrays, h,
      List.filterMap_cons_some (by rw [sign?, h])]
  | pass h rest ih =>
    rw [ih, span_cons rest.le, dropStrays]
    rcases h with h | h <;> rw [h] <;> exact (List.filterMap_cons_none (by rw [sign?, h])).symm
  | stray h rest ih => rw [ih, span_cons rest.le, dropStrays, h, if_pos rfl]
  | loop ho inside hc rest ihBody ihRest =>
    rw [Node.flat, inside.flat_eq_body, ihRest, span_loop inside.le rest.le, dropStrays, ho,
      dropStrays_append inside.nested, dropStrays, hc, if_neg (by omega),
      List.filterMap_cons_some (by rw [sign?, ho]), List.filterMap_append,
      List.filterMap_cons_some (by rw [sign?, hc])]

end Spells

/-! ## Unique readability -/

namespace Node

/-- Followed by a closing bracket, a written form can be read in one way only. -/
theorem sameShape_of_append {as bs : List Node} {xs ys : List Char} (ha : Plain as)
    (hb : Plain bs) (h : written as ++ ']' :: xs = written bs ++ ']' :: ys) :
    SameShape as bs ∧ xs = ys := by
  fun_induction written as generalizing bs xs ys with
  | case1 =>
    cases bs with
    | nil =>
      rw [written] at h
      exact ⟨.nil, (List.cons.inj h).2⟩
    | cons b bs =>
      cases b with
      | op o l =>
        rw [written] at h
        exact absurd (List.cons.inj h).1.symm o.symbol_ne_closing
      | loop l body =>
        rw [written] at h
        exact absurd (List.cons.inj h).1 (by decide)
      | bare l => rw [Plain] at hb; exact hb.elim
  | case2 o l rest ih =>
    rw [Plain] at ha
    cases bs with
    | nil =>
      rw [written] at h
      exact absurd (List.cons.inj h).1 o.symbol_ne_closing
    | cons b bs =>
      cases b with
      | op o' l' =>
        rw [Plain] at hb
        rw [written] at h
        obtain ⟨hs, ht⟩ := List.cons.inj h
        obtain rfl := Op.symbol_inj hs
        obtain ⟨hshape, hxy⟩ := ih ha hb ht
        exact ⟨.op hshape, hxy⟩
      | loop l' body =>
        rw [written] at h
        exact absurd (List.cons.inj h).1 o.symbol_ne_opening
      | bare l' => rw [Plain] at hb; exact hb.elim
  | case3 l body rest ihBody ihRest =>
    rw [Plain] at ha
    cases bs with
    | nil =>
      rw [written] at h
      exact absurd (List.cons.inj h).1 (by decide)
    | cons b bs =>
      cases b with
      | op o' l' =>
        rw [written] at h
        exact absurd (List.cons.inj h).1.symm o'.symbol_ne_opening
      | loop l' body' =>
        rw [Plain] at hb
        rw [written] at h
        simp only [List.cons_append, List.append_assoc, List.cons.injEq, true_and] at h
        obtain ⟨hbody, hrest⟩ := ihBody ha.1 hb.1 h
        obtain ⟨hshape, hxy⟩ := ihRest ha.2 hb.2 hrest
        exact ⟨.loop hbody hshape, hxy⟩
      | bare l' => rw [Plain] at hb; exact hb.elim
  | case4 l rest => rw [Plain] at ha; exact ha.elim

/-- Lists that are written alike have the same shape. -/
theorem sameShape_of_written {as bs : List Node} (ha : Plain as) (hb : Plain bs)
    (h : written as = written bs) : SameShape as bs :=
  (sameShape_of_append ha hb (congrArg (· ++ ']' :: []) h)).1

end Node

end TapeLang
