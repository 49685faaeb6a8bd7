import TapeLang.Proofs.Rounds

/-!
# Whom a round calls

Listeners may subscribe others while a round is under way, so the registry grows while the round
goes through it. Nothing is lost by that. A round that ends well has called everybody in the
registry that it leaves behind whom its signal is for, each once and in order. A round that a
listener stops has called those up to this listener. In either case the registry is the old one,
followed by what the calls have registered.
-/

namespace TapeLang

variable {L : Type}

/-! ## Whom a signal is for -/

/-- Whom a signal is for: an event for those who asked for it, a tick for those whose interval
divides the count. -/
def Trigger.Answers : Trigger → Signal → Prop
  | .on e, .event e' => e = e'
  | .every k _, .tick count => (k : Int) ∣ count
  | .on _, .tick _ | .every _ _, .event _ => False

theorem Trigger.hears_iff {t : Trigger} {signal : Signal} :
    t.hears signal = true ↔ t.Answers signal := by
  cases t with
  | on e =>
    cases signal with
    | event e' => exact decide_eq_true_iff
    | tick count => simp only [hears, Answers, Bool.false_eq_true]
  | every k pos =>
    cases signal with
    | event e' => simp only [hears, Answers, Bool.false_eq_true]
    | tick count => exact decide_eq_true_iff.trans Int.dvd_iff_emod_eq_zero.symm

instance (t : Trigger) (signal : Signal) : Decidable (t.Answers signal) :=
  decidable_of_iff _ Trigger.hears_iff

example : (Trigger.every 3 (by decide)).Answers (.tick (-6)) := by decide

namespace Hooks

/-- What has been registered, in order: who hears what. -/
def registered (hooks : Hooks L) : List (Trigger × L) :=
  hooks.toList.map fun sub => (sub.trigger, sub.listener)

/-- Those in a registry whom a signal is for, each with its place. -/
def audience (hooks : Hooks L) (signal : Signal) : List ((Trigger × L) × Nat) :=
  hooks.registered.zipIdx.filter fun entry => entry.1.1.Answers signal

theorem length_registered (hooks : Hooks L) : hooks.registered.length = hooks.size := by
  simp [registered]

theorem getElem?_registered {hooks : Hooks L} {i : Nat} (h : i < hooks.size) :
    hooks.registered[i]? = some (hooks[i].trigger, hooks[i].listener) := by
  simp [registered, h]

/-- Calls are counted in a registry, and change nothing else in it. -/
theorem registered_count (hooks : Hooks L) (i : Nat) :
    (hooks.count i).registered = hooks.registered := by
  apply List.ext_getElem?
  intro k
  simp only [registered, count, List.getElem?_map, Array.getElem?_toList, Array.getElem?_modify]
  split
  · cases hooks[k]? <;> rfl
  · rfl

end Hooks

/-! ## What calls register -/

/-- What an action registers when it is carried out. -/
def Action.registers : Action L → List (Trigger × L)
  | .subscribe r l =>
    match r.trigger with
    | .ok t => [(t, l)]
    | .error _ => []
  | _ => []

namespace Interp

/-- What actions register that are carried out in order, up to the first that stops the run. -/
def registrations (s : Interp L) : List (Action L) → List (Trigger × L)
  | [] => []
  | a :: rest =>
    match s.perform a with
    | .ok s => a.registers ++ s.registrations rest
    | .error _ => []

/-- An action that is carried out registers behind all others. -/
theorem registered_of_perform {s s' : Interp L} {a : Action L} (h : s.perform a = .ok s') :
    s'.hooks.registered = s.hooks.registered ++ a.registers := by
  cases a with
  | emit text =>
    simp only [perform, emit] at h
    split at h <;> cases h
    exact (List.append_nil _).symm
  | subscribe r l =>
    simp only [perform] at h
    split at h
    · next hooks he =>
      cases h
      obtain ⟨t, ht, rfl⟩ := Hooks.subscribe_eq_ok_iff.1 he
      simp [Hooks.registered, Action.registers, ht]
    · cases h
  | fail | fault | exit | interrupt | quit => cases h
  | setCell | point | report | append =>
    cases h
    exact (List.append_nil _).symm

/-- An action that stops the run registers nothing. -/
theorem hooks_of_perform_error {s : Interp L} {a : Action L} {h : Halt L}
    (he : s.perform a = .error h) : h.state.hooks = s.hooks := by
  cases a with
  | emit text =>
    simp only [perform, emit] at he
    split at he <;> cases he
    rfl
  | subscribe r l =>
    simp only [perform] at he
    split at he <;> cases he
    rfl
  | fail | fault | exit | interrupt | quit =>
    cases he
    rfl
  | setCell | point | report | append => cases he

/-- Registrations are made behind all others, and remain when a later action stops the run. -/
theorem registered_performAll (s : Interp L) (as : List (Action L)) :
    (endState (s.performAll as)).hooks.registered =
      s.hooks.registered ++ s.registrations as := by
  induction as generalizing s with
  | nil => exact (List.append_nil _).symm
  | cons a rest ih =>
    rw [performAll, registrations]
    cases ha : s.perform a with
    | ok s' =>
      show (endState (s'.performAll rest)).hooks.registered = _
      rw [ih, registered_of_perform ha, List.append_assoc]
    | error h =>
      show h.state.hooks.registered = _
      rw [hooks_of_perform_error ha, List.append_nil]

end Interp

/-! ## The calls of a round -/

/-- A listener as it is called in a round: the state then, and the place of its subscription. -/
structure Visit (L : Type) where
  state : Interp L
  index : Nat
  within : index < state.hooks.size

namespace Visit

/-- The subscription whose listener is called. -/
def subscription (v : Visit L) : Subscription L := getElem v.state.hooks v.index v.within

/-- The entry of the registry. -/
def entry (v : Visit L) : (Trigger × L) × Nat :=
  ((v.subscription.trigger, v.subscription.listener), v.index)

/-- The call as the journal keeps it. -/
def call (n : Notice) (v : Visit L) : Call L where
  listener := v.subscription.listener
  notice := n
  steps := v.state.steps
  stack := v.state.stack
  top := v.state.program.length
  cell := v.state.tape.map fun t => (t.pointer.val, t.current)

variable [Listener L]

/-- What the call comes to. -/
def outcome (n : Notice) (v : Visit L) : Except (Halt L) (Interp L) :=
  v.state.callListener v.index v.subscription n

/-- What the call registers. -/
def registers (n : Notice) (v : Visit L) : List (Trigger × L) :=
  (v.state.noteCall v.index v.subscription.listener n).registrations
    (Listener.react v.subscription.listener (v.subscription.calls + 1) n v.state.scene)

theorem journal_outcome (n : Notice) (v : Visit L) :
    (Interp.endState (v.outcome n)).journal.toList = v.state.journal.toList ++ [v.call n] := by
  rw [outcome, Interp.callListener, (Interp.performAll_keeps _ _).2.2.2]
  exact Array.toList_push

theorem registered_outcome (n : Notice) (v : Visit L) :
    (Interp.endState (v.outcome n)).hooks.registered =
      v.state.hooks.registered ++ v.registers n := by
  rw [outcome, Interp.callListener, Interp.registered_performAll]
  exact congrArg (· ++ _) (Hooks.registered_count _ _)

end Visit

namespace Interp

variable [Listener L]

/-- From a state on, one call after the other is made for a notice, up to the first that stops the
run, and comes to a result. -/
inductive Calls (n : Notice) : Interp L → List (Visit L) → Except (Halt L) (Interp L) → Prop where
  | none {s : Interp L} : Calls n s [] (.ok s)
  | called {v : Visit L} {s : Interp L} {visits : List (Visit L)}
      {r : Except (Halt L) (Interp L)} (ok : v.outcome n = .ok s) (later : Calls n s visits r) :
      Calls n v.state (v :: visits) r
  | stopped {v : Visit L} {h : Halt L} (error : v.outcome n = .error h) :
      Calls n v.state [v] (.error h)

variable {n : Notice} {s : Interp L} {visits : List (Visit L)} {r : Except (Halt L) (Interp L)}

/-- The journal grows by the calls. -/
theorem Calls.journal (h : Calls n s visits r) :
    (endState r).journal.toList = s.journal.toList ++ visits.map (Visit.call n) := by
  induction h with
  | none => exact (List.append_nil _).symm
  | @called v s visits r ok later ih =>
    have hv := v.journal_outcome n
    rw [ok] at hv
    rw [ih, show s.journal.toList = _ from hv, List.append_assoc]
    rfl
  | @stopped v h error =>
    have hv := v.journal_outcome n
    rw [error] at hv
    exact hv

/-- The registry grows by what the calls register. -/
theorem Calls.registered (h : Calls n s visits r) :
    (endState r).hooks.registered =
      s.hooks.registered ++ visits.flatMap (Visit.registers n) := by
  induction h with
  | none => exact (List.append_nil _).symm
  | @called v s visits r ok later ih =>
    have hv := v.registered_outcome n
    rw [ok] at hv
    rw [ih, show s.hooks.registered = _ from hv, List.append_assoc, List.flatMap_cons]
  | @stopped v h error =>
    have hv := v.registered_outcome n
    rw [error] at hv
    rw [List.flatMap_singleton]
    exact hv

/-- What was registered keeps its place. -/
theorem Calls.getElem?_registered (h : Calls n s visits r) {i : Nat} (hi : i < s.hooks.size) :
    (endState r).hooks.registered[i]? = some (s.hooks[i].trigger, s.hooks[i].listener) := by
  rw [h.registered, List.getElem?_append_left (by rwa [Hooks.length_registered]),
    Hooks.getElem?_registered hi]

end Interp

/-! ## The registry at the end of a round -/

namespace Hooks

variable {hooks : Hooks L} {signal : Signal} {i : Nat}

/-- Those whom a signal is for, from a place in the registry on. -/
def audienceFrom (hooks : Hooks L) (signal : Signal) (i : Nat) : List ((Trigger × L) × Nat) :=
  (hooks.registered.zipIdx.drop i).filter fun entry => entry.1.1.Answers signal

theorem drop_zipIdx {e : Trigger × L} (h : hooks.registered[i]? = some e) :
    hooks.registered.zipIdx.drop i = (e, i) :: hooks.registered.zipIdx.drop (i + 1) := by
  obtain ⟨hi, he⟩ := List.getElem?_eq_some_iff.1 h
  rw [List.drop_eq_getElem_cons (by simpa using hi)]
  simp [he]

theorem audienceFrom_of_answers (hooks : Hooks L) {e : Trigger × L}
    (h : hooks.registered[i]? = some e) (answers : e.1.Answers signal) :
    hooks.audienceFrom signal i = (e, i) :: hooks.audienceFrom signal (i + 1) := by
  rw [audienceFrom, drop_zipIdx h, List.filter_cons_of_pos (by simpa using answers)]
  rfl

theorem audienceFrom_of_not_answers (hooks : Hooks L) {e : Trigger × L}
    (h : hooks.registered[i]? = some e) (deaf : ¬e.1.Answers signal) :
    hooks.audienceFrom signal i = hooks.audienceFrom signal (i + 1) := by
  rw [audienceFrom, drop_zipIdx h, List.filter_cons_of_neg (by simpa using deaf)]
  rfl

theorem audienceFrom_size (hooks : Hooks L) (signal : Signal) (h : hooks.size ≤ i) :
    hooks.audienceFrom signal i = [] := by
  rw [audienceFrom, List.drop_eq_nil_of_le (by simpa [length_registered] using h)]
  rfl

end Hooks

namespace Interp

variable [Listener L] {n : Notice} {i : Nat} {visits : List (Visit L)}
  {r : Except (Halt L) (Interp L)}

/-- Whom calls have been made to, in view of the registry in the end and from a place in it on:
everybody whom the signal is for; or those up to the one that stops the run. -/
def Reached (n : Notice) (i : Nat) (visits : List (Visit L)) : Except (Halt L) (Interp L) → Prop
  | .ok t => visits.map Visit.entry = t.hooks.audienceFrom n.signal i
  | .error h =>
    visits.map Visit.entry <+: h.state.hooks.audienceFrom n.signal i ∧
      ∃ last ∈ visits.getLast?, last.outcome n = .error h

/-- One more call is made before all others, to whoever is registered at its place. -/
theorem Reached.cons {v : Visit L} (place : (endState r).hooks.registered[v.index]? =
      some (v.subscription.trigger, v.subscription.listener))
    (answers : v.subscription.trigger.Answers n.signal) (h : Reached n (v.index + 1) visits r) :
    Reached n v.index (v :: visits) r := by
  cases r with
  | ok t =>
    have hvisits : visits.map Visit.entry = t.hooks.audienceFrom n.signal (v.index + 1) := h
    show v.entry :: visits.map Visit.entry = t.hooks.audienceFrom n.signal v.index
    rw [t.hooks.audienceFrom_of_answers place answers, hvisits, Visit.entry]
  | error halt =>
    obtain ⟨hbefore, last, hlast, herror⟩ := h
    refine ⟨?_, last, ?_, herror⟩
    · show v.entry :: visits.map Visit.entry <+: halt.state.hooks.audienceFrom n.signal v.index
      rw [halt.state.hooks.audienceFrom_of_answers place answers]
      exact List.cons_prefix_cons.2 ⟨rfl, hbefore⟩
    · rw [List.getLast?_cons, Option.mem_def.1 hlast]
      rfl

/-- A place with somebody whom the signal is not for may be passed. -/
theorem Reached.skip (same : (endState r).hooks.audienceFrom n.signal i =
    (endState r).hooks.audienceFrom n.signal (i + 1)) (h : Reached n (i + 1) visits r) :
    Reached n i visits r := by
  cases r with
  | ok t => exact h.trans same.symm
  | error halt => exact ⟨same ▸ h.1, h.2⟩

/-- The rest of a round calls everybody in the rest of the registry whom its signal is for. -/
theorem exists_calls (s : Interp L) (n : Notice) (i : Nat) :
    ∃ visits, Calls n s visits (s.roundFrom n i) ∧ Reached n i visits (s.roundFrom n i) := by
  fun_induction roundFrom s n i with
  | case1 s i within hears s' hcalled ih =>
    obtain ⟨visits, hcalls, hreached⟩ := ih
    let v : Visit L := ⟨s, i, within⟩
    have hall : Calls n s (v :: visits) (s'.roundFrom n (i + 1)) := .called (v := v) hcalled hcalls
    refine ⟨v :: visits, hall, ?_⟩
    exact hreached.cons (hall.getElem?_registered within) (Trigger.hears_iff.1 hears)
  | case2 s i within hears halt hcalled =>
    let v : Visit L := ⟨s, i, within⟩
    have hall : Calls n s [v] (.error halt) := .stopped (v := v) hcalled
    refine ⟨[v], hall, ?_, v, rfl, hcalled⟩
    rw [halt.state.hooks.audienceFrom_of_answers (hall.getElem?_registered within)
      (Trigger.hears_iff.1 hears)]
    exact List.prefix_append [v.entry] _
  | case3 s i within deaf ih =>
    obtain ⟨visits, hcalls, hreached⟩ := ih
    have hdeaf := fun answers => deaf (Trigger.hears_iff.2 answers)
    refine ⟨visits, hcalls, hreached.skip ?_⟩
    exact Hooks.audienceFrom_of_not_answers _ (hcalls.getElem?_registered within) hdeaf
  | case4 s i within =>
    exact ⟨[], .none, (s.hooks.audienceFrom_size n.signal (Nat.le_of_not_lt within)).symm⟩

/-- A round makes its calls one after the other. The journal grows by these calls, and the registry
by what they register. A round that ends well has called everybody, in order and each once, whom its
signal is for in the registry that it leaves. A round that is stopped has called the first of these,
up to the one that stops it. -/
theorem round_accounts (s : Interp L) (n : Notice) :
    ∃ visits : List (Visit L), Calls n s visits (s.round n) ∧
      (endState (s.round n)).journal.toList = s.journal.toList ++ visits.map (Visit.call n) ∧
      (endState (s.round n)).hooks.registered =
        s.hooks.registered ++ visits.flatMap (Visit.registers n) ∧
      match s.round n with
      | .ok t => visits.map Visit.entry = t.hooks.audience n.signal
      | .error h =>
        visits.map Visit.entry <+: h.state.hooks.audience n.signal ∧
          ∃ last ∈ visits.getLast?, last.outcome n = .error h := by
  obtain ⟨visits, hcalls, hreached⟩ := s.exists_calls n 0
  exact ⟨visits, hcalls, hcalls.journal, hcalls.registered, hreached⟩

end Interp

end TapeLang
