import TapeLang.Proofs.Announcements
import TapeLang.Proofs.Evaluation

/-!
# What leaves a run

Whatever listeners and sink do, a run that ends has finished, or has stopped with a fault, an exit
or an interrupt, or because one of them quits. The failure of a listener surfaces as a fault of rule
`EXT`, also when it is the sink that has failed the listener. The failure of the sink at an
instruction of the program surfaces as a fault of rule `internal`. The fault of a halted program
carries the number of instructions started and is announced once; nothing else is announced as a
fault.
-/

namespace TapeLang

variable {L : Type}

namespace Config

variable [Listener L] {c : Config L} {log : List (Announcement L)} {s : Interp L} {m : Moment}

/-- While statements are executed, every announcement but the last is heard without a halt. -/
theorem Leads.heard (path : c.Leads log s m) :
    ∀ a ∈ log, a.notice.Inner ∧ ∃ t, a.state.announce a.notice = .ok t := by
  induction path with
  | refl => exact fun _ h => nomatch h
  | announce path move ok ih =>
    intro a ha
    rcases List.mem_append.1 ha with ha | ha
    · exact ih a ha
    · obtain rfl := List.mem_singleton.1 ha
      exact ⟨move.inner, _, ok⟩
  | go path move ih => exact ih

theorem Halts.inner {h : Halt L} (path : c.Halts log m h) : ∀ a ∈ log, a.notice.Inner := by
  intro a ha
  cases path with
  | stopped path move => exact (path.heard a ha).1
  | refused path move error =>
    rcases List.mem_append.1 ha with ha | ha
    · exact (path.heard a ha).1
    · obtain rfl := List.mem_singleton.1 ha
      exact move.inner

end Config

namespace Interp

variable [Listener L]

variable {s : Interp L} {p : Program} {tape : Tape} {log : List (Announcement L)} {v : Verdict L}

/-- A run of a program never ends as if the text were none, and never with a bare failure. -/
theorem Tells.kinds (ht : s.Tells p tape log v) (hv : v.Settled) :
    (∃ t, v = .finished t) ∨ ∃ stop t, v = .stopped ⟨stop, t⟩ ∧ ∀ g, stop ≠ .failure g := by
  have hannounce {t : Interp L} {n : Notice} {h : Halt L} (he : t.announce n = .error h) :
      ∃ stop u, Verdict.stopped h = .stopped ⟨stop, u⟩ ∧ ∀ g, stop ≠ .failure g := by
    obtain ⟨⟨stop, u⟩, -, rfl⟩ := announce_eq_error_iff.1 he
    cases stop <;> exact ⟨_, _, rfl, fun g => by simp⟩
  cases ht with
  | unstarted start => exact .inr (hannounce (begin_eq_error start))
  | unfinished => exact hv.elim
  | @concluded c log t traced start path =>
    rw [conclude]
    cases he : t.announce .ended with
    | ok u => exact .inl ⟨_, rfl⟩
    | error h => exact .inr (hannounce he)
  | @passed c log m h start path signal =>
    obtain ⟨stop, t⟩ := h
    refine .inr ⟨stop, t, rfl, ?_⟩
    rintro g rfl
    cases signal
  | @reported c log m h f start path fault =>
    rw [report_of_reported fault]
    cases he : h.state.announce (.failed f) with
    | ok u => exact .inr ⟨_, _, rfl, fun g => by simp⟩
    | error h' => exact .inr (hannounce he)

end Interp

end TapeLang
