import TapeLang.Interp.Queue

/-!
# Scripted listeners

A scripted listener carries out the same actions whenever it is called, or only at one of its calls.
What it subscribes is again scripted, so a script is a finite tree.
-/

namespace TapeLang

/-- A listener given by what it does. -/
inductive Script where
  /-- The label names the listener in the journal; `only` limits the actions to one of the calls,
  counted from one. -/
  | mk (label : String) (only : Option Int) (actions : List (Action Script))

instance : Inhabited Script := ⟨.mk "" none []⟩

namespace Script

/-- The name of the listener in the journal. -/
def label : Script → String
  | .mk label _ _ => label

/-- The actions at a call. -/
def actions (k : Nat) : Script → List (Action Script)
  | .mk _ only actions =>
    match only with
    | none => actions
    | some j => if j = k then actions else []

/-- A script is larger than those that its actions subscribe. -/
theorem sizeOf_lt_of_subscribe {l l' : Script} {k : Nat} {r : Request}
    (h : .subscribe r l' ∈ l.actions k) : sizeOf l' < sizeOf l := by
  cases l with
  | mk label only as =>
    have hmem : .subscribe r l' ∈ as := by
      simp only [actions] at h
      split at h
      · exact h
      · split at h
        · exact h
        · exact absurd h List.not_mem_nil
    have hlt := List.sizeOf_lt_of_mem hmem
    simp only [Action.subscribe.sizeOf_spec] at hlt
    simp only [mk.sizeOf_spec]
    omega

instance : Listener Script where
  react l k _ _ := l.actions k
  ends _ := Interp.wellFounded_onward (measure sizeOf).wf fun h _ _ => sizeOf_lt_of_subscribe h

end Script

end TapeLang
