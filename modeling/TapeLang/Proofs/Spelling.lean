import TapeLang.Program
import TapeLang.Proofs.Brackets

/-!
# What a span of tokens spells

`Spells` relates a span of tokens to the statements written there. It follows the shape of the
statements and knows neither the search for a closing bracket nor the nesting limit. Every span
without an unclosed loop spells a statement list, and any other one spells a list up to its first
unclosed loop. On a span that spells a list, the search for a closing bracket comes out at the end
of the span, and reading yields the list unless it is nested too deeply.
-/

namespace TapeLang

namespace Source

variable {t : Source}

/-- The indices from `i` up to `j`. -/
def span (i j : Nat) : List Nat := List.range' i (j - i)

@[simp] theorem span_self (i : Nat) : span i i = [] := by simp [span]

theorem span_cons {i j : Nat} (h : i < j) : span i j = i :: span (i + 1) j := by
  have he : j - i = (j - (i + 1)) + 1 := by omega
  rw [span, span, he, List.range'_succ]

theorem span_append {i p j : Nat} (hi : i ≤ p) (hj : p ≤ j) :
    span i j = span i p ++ span p j := by
  have hp : p = i + (p - i) := by omega
  have hl : j - i = (p - i) + (j - p) := by omega
  rw [span, span, span, hl, ← List.range'_append_1, ← hp]

/-- A span that starts with a loop: the opening bracket, the body, the closing bracket, the rest. -/
theorem span_loop {i p j : Nat} (hp : i < p) (hj : p < j) :
    span i j = i :: (span (i + 1) p ++ p :: span (p + 1) j) := by
  rw [span_cons (Nat.lt_trans hp hj), span_append hp (Nat.le_of_lt hj), span_cons hj]

@[simp] theorem mem_span {i j k : Nat} : k ∈ span i j ↔ i ≤ k ∧ k < j := by
  rw [span, List.mem_range'_1]
  omega

/-! ## The search for a closing bracket -/

theorem closer?_none {stop level i : Nat} (h : stop ≤ i) : t.closer? stop level i = none := by
  rw [closer?, if_neg (by omega)]

theorem closer?_opening {stop level i : Nat} (hi : i < stop) (h : t.kind i = .opening) :
    t.closer? stop level i = t.closer? stop (level + 1) (i + 1) := by
  rw [closer?, if_pos hi, h]

theorem closer?_last {stop i : Nat} (hi : i < stop) (h : t.kind i = .closing) :
    t.closer? stop 1 i = some i := by
  rw [closer?, if_pos hi, h]
  exact if_pos (Nat.le_refl 1)

theorem closer?_closing {stop level i : Nat} (hi : i < stop) (h : t.kind i = .closing) :
    t.closer? stop (level + 2) i = t.closer? stop (level + 1) (i + 1) := by
  rw [closer?, if_pos hi, h]
  exact if_neg (by omega)

theorem closer?_pass {stop level i : Nat} (hi : i < stop) (ho : t.kind i ≠ .opening)
    (hc : t.kind i ≠ .closing) : t.closer? stop level i = t.closer? stop level (i + 1) := by
  rw [closer?, if_pos hi]
  split
  · next h => exact absurd h ho
  · next h => exact absurd h hc
  · rfl

end Source

/-- The tokens from `i` up to `j` spell the statements. With `top`, closing brackets with nothing
to close may stand outside all loops. -/
inductive Spells (t : Source) : (top : Bool) → (i j : Nat) → List Node → Prop where
  | nil (top : Bool) (i : Nat) : Spells t top i i []
  | op {top : Bool} {i j : Nat} {o : Op} {ns : List Node} (h : t.kind i = .op o)
      (rest : Spells t top (i + 1) j ns) : Spells t top i j (.op o (some (t.place i)) :: ns)
  | pass {top : Bool} {i j : Nat} {ns : List Node} (h : t.kind i = .finish ∨ t.kind i = .other)
      (rest : Spells t top (i + 1) j ns) : Spells t top i j ns
  | stray {i j : Nat} {ns : List Node} (h : t.kind i = .closing)
      (rest : Spells t true (i + 1) j ns) : Spells t true i j ns
  | loop {top : Bool} {i p j : Nat} {body ns : List Node} (ho : t.kind i = .opening)
      (inside : Spells t false (i + 1) p body) (hc : t.kind p = .closing)
      (rest : Spells t top (p + 1) j ns) : Spells t top i j (.loop (t.place i) body :: ns)

namespace Spells

open Source

variable {t : Source} {top : Bool} {i j : Nat} {ns : List Node}

theorem le (h : Spells t top i j ns) : i ≤ j := by
  induction h with
  | nil => exact Nat.le_refl _
  | op | pass | stray => omega
  | loop => omega

/-- Without its positions and statements, what spells a list is nested as deeply as the list. -/
theorem nested (h : Spells t top i j ns) : Nested t.kind top (Node.depth ns) (span i j) := by
  induction h with
  | nil =>
    rw [span_self, Node.depth]
    exact .nil _
  | op h rest ih =>
    rw [span_cons rest.le, Node.depth]
    exact .pass (by simp [h]) (by simp [h]) ih
  | pass h rest ih =>
    rw [span_cons rest.le]
    exact .pass (by rcases h with h | h <;> simp [h]) (by rcases h with h | h <;> simp [h]) ih
  | stray h rest ih =>
    rw [span_cons rest.le]
    exact .stray h ih
  | loop ho inside hc rest ihBody ihRest =>
    rw [span_loop inside.le rest.le, Node.depth]
    exact .loop ho ihBody hc ihRest

/-- Searching from inside some loops, the search passes over what spells a list. -/
theorem closer?_eq (h : Spells t false i j ns) {stop level : Nat} (hj : j ≤ stop) :
    t.closer? stop (level + 1) i = t.closer? stop (level + 1) j := by
  generalize hb : false = b at h
  induction h generalizing level with
  | nil => rfl
  | op h rest ih =>
    have := rest.le
    rw [closer?_pass (by omega) (by simp [h]) (by simp [h])]
    exact ih hj hb
  | pass h rest ih =>
    have := rest.le
    rw [closer?_pass (by omega) (by rcases h with h | h <;> simp [h])
      (by rcases h with h | h <;> simp [h])]
    exact ih hj hb
  | stray => cases hb
  | loop ho inside hc rest ihBody ihRest =>
    have hp := inside.le
    have hr := rest.le
    rw [closer?_opening (by omega) ho, ihBody (by omega) rfl, closer?_closing (by omega) hc]
    exact ihRest hj hb

/-- A bracket that is found closes a span that spells a list; what is left of the search goes on
behind the first closing bracket met on the level of the start. -/
theorem of_closer? {stop n p : Nat} (h : t.closer? stop (n + 1) i = some p) :
    ∃ q ns, Spells t false i q ns ∧ t.kind q = .closing ∧ q < stop ∧
      (n = 0 → q = p) ∧ ∀ k, n = k + 1 → t.closer? stop n (q + 1) = some p := by
  -- A loop on the way uses the claim twice, for its body and for what follows it, so the
  -- induction is on what is left to search.
  induction hd : stop - i using Nat.strongRecOn generalizing i n with
  | _ d ih =>
    by_cases hi : i < stop
    · cases hk : t.kind i with
      | opening =>
        rw [closer?_opening hi hk] at h
        obtain ⟨q, body, hbody, hq, hqs, -, hnext⟩ := ih _ (by omega) h rfl
        have hle := hbody.le
        obtain ⟨r, ns, hns, hr⟩ := ih _ (by omega) (hnext n rfl) rfl
        exact ⟨r, _, .loop hk hbody hq hns, hr⟩
      | closing =>
        refine ⟨i, [], .nil false i, hk, hi, ?_, ?_⟩
        · rintro rfl
          rw [closer?_last hi hk] at h
          exact Option.some.inj h
        · rintro k rfl
          rwa [closer?_closing hi hk] at h
      | op o =>
        rw [closer?_pass hi (by simp [hk]) (by simp [hk])] at h
        obtain ⟨q, ns, hns, hq⟩ := ih _ (by omega) h rfl
        exact ⟨q, _, .op hk hns, hq⟩
      | finish =>
        rw [closer?_pass hi (by simp [hk]) (by simp [hk])] at h
        obtain ⟨q, ns, hns, hq⟩ := ih _ (by omega) h rfl
        exact ⟨q, ns, .pass (.inl hk) hns, hq⟩
      | other =>
        rw [closer?_pass hi (by simp [hk]) (by simp [hk])] at h
        obtain ⟨q, ns, hns, hq⟩ := ih _ (by omega) h rfl
        exact ⟨q, ns, .pass (.inr hk) hns, hq⟩
    · rw [closer?_none (by omega)] at h
      cases h

/-- The body of a closed loop spells a list. -/
theorem body_of_closer? {stop p : Nat} (h : t.closer? stop 1 i = some p) :
    ∃ body, Spells t false i p body ∧ t.kind p = .closing ∧ p < stop := by
  obtain ⟨q, body, hbody, hq, hqs, he, -⟩ := of_closer? (n := 0) h
  obtain rfl := he rfl
  exact ⟨body, hbody, hq, hqs⟩

/-- Every span spells a list, as a whole or up to a loop that is not closed. -/
theorem exists_prefix (t : Source) {i stop : Nat} (hi : i ≤ stop) :
    (∃ ns, Spells t true i stop ns) ∨
      ∃ u ns, Spells t true i u ns ∧ u < stop ∧ t.kind u = .opening ∧
        t.closer? stop 1 (u + 1) = none := by
  induction hd : stop - i using Nat.strongRecOn generalizing i with
  | _ d ih =>
    by_cases he : i = stop
    · exact .inl ⟨[], he ▸ .nil true i⟩
    · have hlt : i < stop := by omega
      -- What is found behind one statement is completed by that statement.
      have extend : ∀ {k : Nat} (f : List Node → List Node), i < k → k ≤ stop →
          (∀ {q : Nat} {ns : List Node}, Spells t true k q ns → Spells t true i q (f ns)) →
          (∃ ns, Spells t true i stop ns) ∨
            ∃ u ns, Spells t true i u ns ∧ u < stop ∧ t.kind u = .opening ∧
              t.closer? stop 1 (u + 1) = none := by
        intro k f hik hk hf
        rcases ih _ (by omega) hk rfl with ⟨ns, hns⟩ | ⟨u, ns, hns, hu⟩
        · exact .inl ⟨f ns, hf hns⟩
        · exact .inr ⟨u, f ns, hf hns, hu⟩
      cases hk : t.kind i with
      | opening =>
        cases hc : t.closer? stop 1 (i + 1) with
        | none => exact .inr ⟨i, [], .nil true i, hlt, hk, hc⟩
        | some p =>
          obtain ⟨body, hbody, hp, hps⟩ := body_of_closer? hc
          have hle := hbody.le
          exact extend (.loop (t.place i) body :: ·) (by omega) (by omega) (.loop hk hbody hp)
      | closing => exact extend id (by omega) hlt (.stray hk)
      | op o => exact extend (.op o (some (t.place i)) :: ·) (by omega) hlt (.op hk)
      | finish => exact extend id (by omega) hlt (.pass (.inl hk))
      | other => exact extend id (by omega) hlt (.pass (.inr hk))

end Spells

end TapeLang
