import TapeLang.Interp.Round

/-!
# Rounds that come to an end

The listeners that a round has still to call form a queue. The one that is called leaves it, and
those that it subscribes may join it. When each of these stands below the one that has left, in an
order without endless descents, the queue runs dry in the end.
-/

namespace TapeLang

section Queues

variable {α : Type} {below : α → α → Prop}

/-- A queue after one of its members has left and others below that one have joined. -/
def Serves (below : α → α → Prop) (later earlier : List α) : Prop :=
  ∃ a rest joined, earlier.Perm (a :: rest) ∧ later.Perm (joined ++ rest) ∧
    ∀ b ∈ joined, below b a

namespace Serves

/-- The order in a queue is of no account. -/
theorem acc_of_perm {as bs : List α} (h : as.Perm bs) (hb : Acc (Serves below) bs) :
    Acc (Serves below) as := by
  refine ⟨as, ?_⟩
  rintro later ⟨a, rest, joined, hearlier, hlater, hjoined⟩
  exact hb.inv ⟨a, rest, joined, h.symm.trans hearlier, hlater, hjoined⟩

theorem acc_append {joined as : List α}
    (h : ∀ b ∈ joined, ∀ bs, Acc (Serves below) bs → Acc (Serves below) (b :: bs))
    (has : Acc (Serves below) as) : Acc (Serves below) (joined ++ as) := by
  induction joined with
  | nil => exact has
  | cons b joined ih =>
    exact h b List.mem_cons_self _ (ih fun c hc => h c (List.mem_cons_of_mem b hc))

theorem acc_cons {a : α} (ha : Acc below a) :
    ∀ as, Acc (Serves below) as → Acc (Serves below) (a :: as) := by
  induction ha with
  | intro a _ iha =>
    intro as has
    induction has with
    | intro as hacc ih =>
      refine ⟨_, ?_⟩
      rintro later ⟨b, rest, joined, hearlier, hlater, hjoined⟩
      refine acc_of_perm hlater ?_
      -- the one that leaves is `a`, or `a` stays and the queue behind it is served
      by_cases hab : b = a
      · subst hab
        exact acc_append (fun c hc => iha c (hjoined c hc))
          (acc_of_perm hearlier.cons_inv.symm ⟨as, hacc⟩)
      · have hmem : b ∈ as :=
          (List.mem_cons.1 (hearlier.mem_iff.2 List.mem_cons_self)).resolve_left hab
        obtain ⟨front, back, rfl⟩ := List.append_of_mem hmem
        have hserved : Serves below (joined ++ (front ++ back)) (front ++ b :: back) :=
          ⟨b, front ++ back, joined, List.perm_middle, .refl _, hjoined⟩
        have hrest : rest.Perm (a :: (front ++ back)) := by
          refine (hearlier.symm.trans ?_).cons_inv
          exact (List.perm_middle.cons a).trans (.swap b a _)
        refine acc_of_perm ?_ (ih _ hserved)
        exact (hrest.append_left joined).trans List.perm_middle

/-- Every queue runs dry. -/
theorem wellFounded (h : WellFounded below) : WellFounded (Serves below) := by
  constructor
  intro as
  induction as with
  | nil =>
    refine ⟨[], ?_⟩
    rintro later ⟨a, rest, joined, hearlier, -, -⟩
    exact absurd hearlier.length_eq (by simp)
  | cons a as ih => exact acc_cons (h.apply a) as ih

end Serves

end Queues

variable {L : Type}

namespace Hooks

/-- The listeners of the subscriptions from an index on that hear a signal. -/
def queue (hooks : Hooks L) (signal : Signal) (i : Nat) : List L :=
  ((hooks.toList.drop i).filter fun sub => sub.trigger.hears signal).map Subscription.listener

variable {hooks : Hooks L} {signal : Signal} {i : Nat}

theorem queue_push {sub : Subscription L} (h : i ≤ hooks.size) :
    queue (hooks.push sub) signal i =
      queue hooks signal i ++ if sub.trigger.hears signal then [sub.listener] else [] := by
  simp only [queue, Array.toList_push,
    List.drop_append_of_le_length (show i ≤ hooks.toList.length by simpa using h),
    List.filter_append, List.map_append]
  cases hs : sub.trigger.hears signal <;> simp [hs]

theorem drop_eq_cons (h : i < hooks.size) :
    hooks.toList.drop i = hooks[i] :: hooks.toList.drop (i + 1) := by
  rw [List.drop_eq_getElem_cons (by simpa using h)]
  simp

theorem queue_of_hears (h : i < hooks.size) (hears : hooks[i].trigger.hears signal = true) :
    queue hooks signal i = hooks[i].listener :: queue hooks signal (i + 1) := by
  rw [queue, drop_eq_cons h, List.filter_cons, if_pos hears]
  rfl

theorem queue_of_deaf (h : i < hooks.size) (deaf : ¬hooks[i].trigger.hears signal = true) :
    queue hooks signal i = queue hooks signal (i + 1) := by
  rw [queue, drop_eq_cons h, List.filter_cons, if_neg deaf]
  rfl

/-- Counting a call leaves the later subscriptions alone. -/
theorem queue_count (hooks : Hooks L) (signal : Signal) (i : Nat) :
    queue (hooks.count i) signal (i + 1) = queue hooks signal (i + 1) := by
  have hdrop : (hooks.count i).toList.drop (i + 1) = hooks.toList.drop (i + 1) := by
    apply List.ext_getElem?
    intro k
    simp only [count, List.getElem?_drop, Array.getElem?_toList, Array.getElem?_modify]
    split
    · omega
    · rfl
  rw [queue, hdrop, queue]

end Hooks

namespace Interp

/-- An action adds to the queue what it subscribes to the signal. -/
theorem queue_perform (signal : Signal) {s s' : Interp L} {a : Action L} {i : Nat}
    (hi : i ≤ s.hooks.size) (h : s.perform a = .ok s') :
    i ≤ s'.hooks.size ∧ ∃ joined : List L,
      s'.hooks.queue signal i = s.hooks.queue signal i ++ joined ∧ ∀ l ∈ joined, ∃ r t,
        a = .subscribe r l ∧ r.trigger = .ok t ∧ t.hears signal = true := by
  have hkeep : ∀ {t : Interp L}, t.hooks = s.hooks → i ≤ t.hooks.size ∧ ∃ joined : List L,
      t.hooks.queue signal i = s.hooks.queue signal i ++ joined ∧ ∀ l ∈ joined, ∃ r t,
        a = .subscribe r l ∧ r.trigger = .ok t ∧ t.hears signal = true :=
    fun ht => ⟨ht ▸ hi, [], by rw [ht]; exact (List.append_nil _).symm, fun _ hl => nomatch hl⟩
  cases a with
  | emit text =>
    simp only [perform, emit] at h
    split at h <;> cases h
    exact hkeep rfl
  | subscribe r l =>
    simp only [perform] at h
    split at h
    · next hooks he =>
      cases h
      obtain ⟨t, ht, rfl⟩ := Hooks.subscribe_eq_ok_iff.1 he
      refine ⟨by simp only [Array.size_push]; omega, _, Hooks.queue_push hi, fun l' hl' => ?_⟩
      split at hl'
      · next hears =>
        obtain rfl := List.mem_singleton.1 hl'
        exact ⟨r, t, rfl, ht, hears⟩
      · cases hl'
    · cases h
  | fail | fault | exit | interrupt | quit => simp [perform] at h
  | setCell | point | report | append =>
    cases h
    exact hkeep rfl

theorem queue_performAll (signal : Signal) {s s' : Interp L} {as : List (Action L)} {i : Nat}
    (hi : i ≤ s.hooks.size) (h : s.performAll as = .ok s') :
    ∃ joined : List L, s'.hooks.queue signal i = s.hooks.queue signal i ++ joined ∧
      ∀ l ∈ joined, ∃ r t, .subscribe r l ∈ as ∧ r.trigger = .ok t ∧ t.hears signal = true := by
  induction as generalizing s with
  | nil =>
    cases h
    exact ⟨[], (List.append_nil _).symm, fun _ hl => nomatch hl⟩
  | cons a rest ih =>
    simp only [performAll] at h
    split at h
    · next he =>
      obtain ⟨hi', joined, hq, hjoined⟩ := queue_perform signal hi he
      obtain ⟨joined', hq', hjoined'⟩ := ih hi' h
      refine ⟨joined ++ joined', ?_, fun l hl => ?_⟩
      · rw [hq', hq]
        exact List.append_assoc ..
      · rcases List.mem_append.1 hl with hl | hl
        · obtain ⟨r, t, rfl, ht⟩ := hjoined l hl
          exact ⟨r, t, List.mem_cons_self, ht⟩
        · obtain ⟨r, t, hmem, ht⟩ := hjoined' l hl
          exact ⟨r, t, List.mem_cons_of_mem a hmem, ht⟩
    · cases h

/-- No round goes on for ever, when whatever a listener subscribes to the signal that it is hearing
stands below it. -/
theorem wellFounded_onward {react : L → Nat → Notice → Scene → List (Action L)} {n : Notice}
    {below : L → L → Prop} (wellFounded : WellFounded below)
    (below_of_subscribe : ∀ {l l' : L} {k : Nat} {c : Scene} {r : Request} {t : Trigger},
      .subscribe r l' ∈ react l k n c → r.trigger = .ok t → t.hears n.signal = true →
        below l' l) :
    WellFounded (Onward react n) := by
  let order := Prod.lex ⟨Serves below, Serves.wellFounded wellFounded⟩ Nat.lt_wfRel
  let rank : Interp L × Nat → List L × Nat :=
    fun place => (place.1.hooks.queue n.signal place.2, place.1.hooks.size - place.2)
  refine Subrelation.wf (fun {later earlier} h => ?_) (InvImage.wf rank order.wf)
  cases h with
  | @called s s' i within hears ok =>
    have hi : i + 1 ≤ (s.noteCall i s.hooks[i].listener n).hooks.size := by
      simp [noteCall, Hooks.count]; omega
    obtain ⟨joined, hq, hjoined⟩ := queue_performAll n.signal hi ok
    refine Prod.Lex.left _ _ ⟨s.hooks[i].listener, s.hooks.queue n.signal (i + 1), joined, ?_, ?_,
      fun l hl => ?_⟩
    · rw [Hooks.queue_of_hears within hears]
    · rw [hq]
      simp only [noteCall, Hooks.queue_count]
      exact List.perm_append_comm
    · obtain ⟨r, t, hmem, ht, hears'⟩ := hjoined l hl
      exact below_of_subscribe hmem ht hears'
  | @passed s i within deaf =>
    have hq : s.hooks.queue n.signal (i + 1) = s.hooks.queue n.signal i :=
      (Hooks.queue_of_deaf within deaf).symm
    have hsize : s.hooks.size - (i + 1) < s.hooks.size - i := by omega
    show Prod.Lex _ _ (s.hooks.queue n.signal (i + 1), _) _
    rw [hq]
    exact Prod.Lex.right _ hsize

end Interp

end TapeLang
