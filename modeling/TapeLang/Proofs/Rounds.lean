import TapeLang.Interp.Round

/-!
# What a round of calls does

Whatever the listeners do in a round, the call stack and the count of instructions stay as they are,
and so does the way in which the sink refuses calls; the journal grows by calls for the notice at
hand. An announcement does what its round does; it differs in the failure of a listener only, of
which it makes a fault.
-/

namespace TapeLang

variable {L : Type}

namespace Interp

/-- The state that a part of a run ends in, whether or not it halts. -/
def endState : Except (Halt L) (Interp L) → Interp L
  | .ok s => s
  | .error h => h.state

/-- The fault that reports the failure of a listener. -/
def blame (s : Interp L) (n : Notice) (g : Failure) : Fault where
  message := s!"{n.subject} failed: {g.text}"
  rule := some "EXT"
  location := s.position
  cause := some g

/-- Between two states, listeners have been called for one notice, and nothing was executed. -/
structure Heard (n : Notice) (s t : Interp L) : Prop where
  steps : t.steps = s.steps
  stack : t.stack = s.stack
  refusal : t.sink.refusal = s.sink.refusal
  calls : ∃ calls : List (Call L), t.journal.toList = s.journal.toList ++ calls ∧
    ∀ call ∈ calls, call.notice = n ∧ call.stack = s.stack ∧ call.steps = s.steps

theorem Heard.refl (n : Notice) (s : Interp L) : s.Heard n s :=
  ⟨rfl, rfl, rfl, [], (List.append_nil _).symm, fun _ h => nomatch h⟩

theorem Heard.trans {n : Notice} {s t u : Interp L} (h : s.Heard n t) (h' : t.Heard n u) :
    s.Heard n u := by
  obtain ⟨calls, hcalls, hall⟩ := h.calls
  obtain ⟨calls', hcalls', hall'⟩ := h'.calls
  refine ⟨h'.steps.trans h.steps, h'.stack.trans h.stack, h'.refusal.trans h.refusal,
    calls ++ calls', ?_, fun call hc => ?_⟩
  · rw [hcalls', hcalls, List.append_assoc]
  · rcases List.mem_append.1 hc with hc | hc
    · exact hall call hc
    · rw [← h.stack, ← h.steps]
      exact hall' call hc

/-- Listeners do not move execution. -/
theorem Heard.position_eq {n : Notice} {s t : Interp L} (h : s.Heard n t) :
    t.position = s.position := by
  rw [position, position, h.stack]

/-- An action touches neither the call stack nor the count of instructions nor the journal, and the
sink goes on refusing as it did. -/
theorem perform_keeps (s : Interp L) (a : Action L) :
    (endState (s.perform a)).steps = s.steps ∧ (endState (s.perform a)).stack = s.stack ∧
      (endState (s.perform a)).sink.refusal = s.sink.refusal ∧
      (endState (s.perform a)).journal = s.journal := by
  cases a with
  | emit text =>
    simp only [perform, Interp.emit]
    split <;> exact ⟨rfl, rfl, rfl, rfl⟩
  | subscribe r l =>
    simp only [perform]
    split <;> exact ⟨rfl, rfl, rfl, rfl⟩
  | fail | fault | exit | interrupt | quit | setCell | point | report | append =>
    exact ⟨rfl, rfl, rfl, rfl⟩

theorem performAll_keeps (s : Interp L) (as : List (Action L)) :
    (endState (s.performAll as)).steps = s.steps ∧ (endState (s.performAll as)).stack = s.stack ∧
      (endState (s.performAll as)).sink.refusal = s.sink.refusal ∧
      (endState (s.performAll as)).journal = s.journal := by
  induction as generalizing s with
  | nil => exact ⟨rfl, rfl, rfl, rfl⟩
  | cons a rest ih =>
    have ha := perform_keeps s a
    rw [performAll]
    cases hp : s.perform a with
    | ok t =>
      rw [hp] at ha
      obtain ⟨hsteps, hstack, hrefusal, hjournal⟩ := ih t
      exact ⟨hsteps.trans ha.1, hstack.trans ha.2.1, hrefusal.trans ha.2.2.1,
        hjournal.trans ha.2.2.2⟩
    | error h =>
      rw [hp] at ha
      exact ha

variable [Listener L]

/-- A call is noted once, for the notice at hand. -/
theorem callListener_heard (s : Interp L) (i : Nat) (sub : Subscription L) (n : Notice) :
    s.Heard n (endState (s.callListener i sub n)) := by
  obtain ⟨hsteps, hstack, hrefusal, hjournal⟩ := performAll_keeps (s.noteCall i sub.listener n)
    (Listener.react sub.listener (sub.calls + 1) n s.scene)
  refine ⟨hsteps, hstack, hrefusal, [_],
    (congrArg Array.toList hjournal).trans Array.toList_push, ?_⟩
  intro call hc
  rw [List.mem_singleton.1 hc]
  exact ⟨rfl, rfl, rfl⟩

theorem roundFrom_of_hears {s : Interp L} {n : Notice} {i : Nat} (hi : i < s.hooks.size)
    (hears : s.hooks[i].trigger.hears n.signal = true) :
    s.roundFrom n i = match s.callListener i s.hooks[i] n with
      | .ok s' => s'.roundFrom n (i + 1)
      | .error h => .error h := by
  rw [roundFrom, dif_pos hi, if_pos hears]
  cases s.callListener i s.hooks[i] n <;> rfl

theorem roundFrom_of_deaf {s : Interp L} {n : Notice} {i : Nat} (hi : i < s.hooks.size)
    (deaf : ¬s.hooks[i].trigger.hears n.signal = true) :
    s.roundFrom n i = s.roundFrom n (i + 1) := by
  rw [roundFrom, dif_pos hi, if_neg deaf]

theorem roundFrom_end {s : Interp L} {n : Notice} {i : Nat} (hi : ¬i < s.hooks.size) :
    s.roundFrom n i = .ok s := by
  rw [roundFrom, dif_neg hi]

/-- A round consists of calls for its notice. -/
theorem roundFrom_heard (s : Interp L) (n : Notice) (i : Nat) :
    s.Heard n (endState (s.roundFrom n i)) := by
  fun_induction roundFrom s n i with
  | case1 s i _ _ s' hcalled ih =>
    have hcall := s.callListener_heard i s.hooks[i] n
    rw [hcalled] at hcall
    exact hcall.trans ih
  | case2 s i _ _ halt hcalled =>
    have hcall := s.callListener_heard i s.hooks[i] n
    rw [hcalled] at hcall
    exact hcall
  | case3 s i _ _ ih => exact ih
  | case4 s i _ => exact .refl n s

theorem round_heard (s : Interp L) (n : Notice) : s.Heard n (endState (s.round n)) :=
  s.roundFrom_heard n 0

/-! ## Announcements -/

/-- What an announcement makes of a halt in its round. -/
def passOn (n : Notice) (h : Halt L) : Halt L :=
  match h.stop with
  | .failure g => ⟨.fault (h.state.blame n g), h.state⟩
  | stop => ⟨stop, h.state⟩

omit [Listener L] in
theorem passOn_state (n : Notice) (h : Halt L) : (passOn n h).state = h.state := by
  rw [passOn]
  split <;> rfl

/-- What an announcement makes of its round. -/
theorem announce_eq (s : Interp L) (n : Notice) :
    s.announce n = match s.round n with
      | .ok t => .ok t
      | .error h => .error (passOn n h) := by
  rw [announce]
  cases s.round n with
  | ok t => rfl
  | error h =>
    obtain ⟨stop, t⟩ := h
    cases stop <;> rfl

/-- An announcement halts exactly when a listener stops its round. -/
theorem announce_eq_error_iff {s : Interp L} {n : Notice} {h : Halt L} :
    s.announce n = .error h ↔ ∃ h', s.round n = .error h' ∧ passOn n h' = h := by
  rw [announce_eq]
  cases s.round n with
  | ok t => simp
  | error h' => simp

/-- A fault that an announcement halts with is placed where execution has got to, or is the fault of
a listener. -/
theorem location_of_announce_error {s t : Interp L} {n : Notice} {f : Fault}
    (he : s.announce n = .error ⟨.fault f, t⟩) :
    f.location = t.position ∨ s.round n = .error ⟨.fault f, t⟩ := by
  obtain ⟨⟨stop, u⟩, hr, hpass⟩ := announce_eq_error_iff.1 he
  cases stop with
  | fault g =>
    cases hpass
    exact .inr hr
  | failure g =>
    cases hpass
    exact .inl rfl
  | exit | interrupt | quit => cases hpass

theorem endState_announce (s : Interp L) (n : Notice) :
    endState (s.announce n) = endState (s.round n) := by
  rw [announce_eq]
  cases s.round n with
  | ok t => rfl
  | error h => exact passOn_state n h

/-- An announcement, too, consists of calls for its notice. -/
theorem announce_heard (s : Interp L) (n : Notice) : s.Heard n (endState (s.announce n)) := by
  rw [endState_announce]
  exact s.round_heard n

theorem heard_of_announce_ok {s t : Interp L} {n : Notice} (h : s.announce n = .ok t) :
    s.Heard n t := by
  have hn := s.announce_heard n
  rwa [h] at hn

theorem heard_of_announce_error {s : Interp L} {n : Notice} {h : Halt L}
    (ha : s.announce n = .error h) : s.Heard n h.state := by
  have hn := s.announce_heard n
  rwa [ha] at hn

end Interp

end TapeLang
