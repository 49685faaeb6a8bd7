import Mathlib.Order.Bounds.Basic
import TapeLang.Extension
import TapeLang.Proofs.Cutoff
import TapeLang.Proofs.Headway
import TapeLang.Proofs.Reporting

/-!
# The limiter

The limiter looks at the count of statements at every multiple of an interval, and stops the run at
the first of them that is not below its limit: the cut. Below the cut a run with the limiter is the
run without listeners. It is stopped where that run starts its statement at the cut, and a run that
never comes so far ends if the other does: when its program ends, or never, because it spins.
-/

namespace TapeLang

/-! ## The subscription -/

namespace StepLimit

/-- The cut for a limit: the first multiple of the interval that is not below the limit. -/
def IsCut (limit cut : Nat) : Prop := IsLeast {m | min checkEvery limit ∣ m ∧ limit ≤ m} cut

variable {limit cut : Nat}

theorem interval_pos (h : 1 ≤ limit) : 0 < min checkEvery limit :=
  Nat.lt_min.2 ⟨by decide, h⟩

theorem IsCut.lt_limit (h : IsCut limit cut) {m : Nat} (hm : m < cut)
    (hdvd : min checkEvery limit ∣ m) : m < limit := by
  by_contra hle
  exact absurd (h.2 ⟨hdvd, Nat.le_of_not_lt hle⟩) (Nat.not_le_of_lt hm)

/-- The cut is less than an interval above the limit. -/
theorem IsCut.le_limit_add (h : IsCut limit cut) (hlimit : 1 ≤ limit) : cut ≤ limit + 999 := by
  have hpos := interval_pos hlimit
  have hle : min checkEvery limit ≤ 1000 := Nat.min_le_left _ _
  have hup := Nat.div_mul_le_self (limit + min checkEvery limit - 1) (min checkEvery limit)
  have hdown := Nat.lt_div_mul_add (a := limit + min checkEvery limit - 1) hpos
  have hcut := h.2 ⟨Nat.dvd_mul_left (min checkEvery limit)
    ((limit + min checkEvery limit - 1) / min checkEvery limit), by omega⟩
  omega

end StepLimit

/-- A limit that is read is positive. -/
theorem StepLimit.pos_of_read {raw : Option String} {limit : Nat} (h : read raw = .ok limit) :
    1 ≤ limit := by
  simp only [read] at h
  split at h
  · cases h
    decide
  · cases h
    decide
  · split at h
    · cases h
    · split at h
      · cases h
      · cases h
        omega

/-- Loading the extension reads a limit and subscribes its limiter. -/
theorem Extension.load_stepLimit {path : String} {raw : Option String}
    {hooks hooks' : Hooks Observer} (h : Extension.stepLimit.load path raw hooks = .ok hooks') :
    ∃ limit, StepLimit.read raw = .ok limit ∧ 1 ≤ limit ∧
      Extension.subscribeAll hooks [StepLimit.subscription limit] = .ok hooks' := by
  rw [stepLimit, load] at h
  cases hread : StepLimit.read raw with
  | ok limit => exact ⟨limit, rfl, StepLimit.pos_of_read hread, by simpa only [hread] using h⟩
  | error e => simp [hread] at h

/-- The subscription of a limiter that is loaded alone. -/
theorem StepLimit.hooks_eq {limit : Nat} (hlimit : 1 ≤ limit) {hooks : Hooks Observer}
    (h : Extension.subscribeAll #[] [subscription limit] = .ok hooks) :
    hooks = #[⟨.every (min checkEvery limit) (interval_pos hlimit), .limiter limit, 0⟩] := by
  have hpos : (1 : Int) ≤ (min checkEvery limit : Nat) := Int.ofNat_le.2 (interval_pos hlimit)
  have htrigger : (Request.every (min checkEvery limit : Nat)).trigger =
      .ok (.every (min checkEvery limit) (interval_pos hlimit)) := by
    rw [Request.trigger, dif_pos hpos]
    rfl
  simp only [Extension.subscribeAll, subscription, Hooks.subscribe, htrigger] at h
  exact (Except.ok.inj h).symm

/-! ## Below the cut -/

/-- What the limiter reports. -/
def StepLimit.report (limit : Nat) : String := s!"Step limit of {limit} instructions exceeded"

section Watching

variable {limit cut interval : Nat} {pos : 0 < interval}

/-- The limiter is the only listener, and the passes are traced. -/
structure Moment.Watched (pos : 0 < interval) (limit : Nat) (s : Interp Observer) (m : Moment) :
    Prop where
  hooks : ∃ calls, s.hooks = #[⟨.every interval pos, .limiter limit, calls⟩]
  passes : ∀ traced ∈ m.passes, traced = true

/-- The limiter hears of nothing but multiples of its interval. -/
theorem Trigger.hears_every {n : Notice} :
    (Trigger.every interval pos).hears n.signal = true ↔
      ∃ count : Int, n = .tick count ∧ (interval : Int) ∣ count := by
  cases n with
  | tick count =>
    have hmod :
        (Trigger.every interval pos).hears (.tick count) = true ↔ (interval : Int) ∣ count :=
      decide_eq_true_iff.trans Int.dvd_iff_emod_eq_zero.symm
    constructor
    · intro h
      exact ⟨count, rfl, hmod.1 h⟩
    · rintro ⟨_, ⟨⟩, hdvd⟩
      exact hmod.2 hdvd
  | _ => simp [Trigger.hears, Notice.signal]

/-- Below the limit the limiter does nothing. -/
theorem Observer.react_limiter_of_lt {count : Int} (h : count < limit) (c : Scene) :
    (Observer.limiter limit).react (.tick count) c = [] :=
  if_neg (Int.not_le_of_gt h)

/-- Below the cut the limiter changes nothing. -/
theorem Moment.passive_of_watched (hcut : ∀ m < cut, interval ∣ m → m < limit)
    (journal : Array (Call Observer)) :
    Passive journal cut fun s m => m.Watched pos limit s where
  announce := by
    intro s m n m' h hs move
    obtain ⟨⟨calls, hhooks⟩, hpasses⟩ := h
    have hquiet : (Trigger.every interval pos).hears n.signal = true →
        ∀ c, Listener.react (Observer.limiter limit) (calls + 1) n c = [] := by
      intro hn c
      obtain ⟨count, rfl, hdvd⟩ := Trigger.hears_every.1 hn
      obtain rfl : count = s.steps := by cases move; rfl
      exact Observer.react_limiter_of_lt
        (Int.ofNat_lt.2 (hcut s.steps hs (Int.natCast_dvd_natCast.1 hdvd))) c
    obtain ⟨t, ht, hhush, hcalls⟩ := Interp.announce_of_quiet hhooks hquiet journal
    exact ⟨t, ht, hhush, ⟨_, hcalls⟩, move.passes_eq ▸ hpasses⟩
  go := by
    intro s m s' m' h move
    obtain ⟨⟨calls, hhooks⟩, hpasses⟩ := h
    have hidle : s.hooks.idle = false := by rw [hhooks, Hooks.idle_single rfl]
    exact ⟨⟨calls, move.hooks_journal.1.trans hhooks⟩, move.traced hidle hpasses⟩
  stop h := ⟨h.hooks, h.passes⟩

/-! ## At the cut -/

/-- The step that starts the statement at the cut is stopped by the limiter. -/
theorem Config.step_limited (hdvd : interval ∣ cut) (hle : limit ≤ cut) {c : Config Observer}
    {n : Node} {rest : List Node} (h : c.moment.Watched pos limit c.state)
    (hrest : c.rest = n :: rest) (hcount : c.state.steps + 1 = cut)
    (journal : Array (Call Observer)) :
    ∃ t, c.step = .halted ⟨.exit Observer.limitCode, t⟩ ∧ t.hush journal =
      Interp.hush journal { c.state.start n with
        reports := c.state.reports.push (StepLimit.report limit) } := by
  obtain ⟨s, rest', traced, loops⟩ := c
  obtain rfl : rest' = n :: rest := hrest
  obtain ⟨⟨calls, hcalls⟩, hpasses⟩ := h
  obtain rfl : traced = true := hpasses traced List.mem_cons_self
  have hcount : (s.start n).steps = cut := hcount
  have hhooks : (s.start n).hooks = #[⟨.every interval pos, .limiter limit, calls⟩] := hcalls
  have hbefore : (s.start n).announce (.before n) = .ok (s.start n) :=
    Interp.announce_of_deaf hhooks rfl
  have hhears : (Trigger.every interval pos).hears (Notice.tick (s.start n).steps).signal = true :=
    Trigger.hears_every.2 ⟨_, rfl, hcount ▸ Int.natCast_dvd_natCast.2 hdvd⟩
  have hreact (c : Scene) : Listener.react (Observer.limiter limit) (calls + 1)
      (.tick (s.start n).steps) c =
      [.report (StepLimit.report limit), .exit Observer.limitCode] :=
    if_pos (Int.ofNat_le.2 (hcount ▸ hle))
  refine ⟨{ (s.start n).noteCall 0 (Observer.limiter limit) (.tick (s.start n).steps) with
    reports := s.reports.push (StepLimit.report limit) }, ?_, rfl⟩
  have hcall := Interp.round_of_hears (r := .error ⟨.exit Observer.limitCode, _⟩) hhooks hhears
    (by rw [Interp.callListener, hreact]; rfl) (fun t ht => by cases ht)
  rw [step, Interp.announceBefore, if_pos rfl, hbefore]
  simp only [Interp.announce_eq, hcall]
  rfl

end Watching

/-! ## Runs -/

/-- While statements are executed, neither the end nor a fault is announced. -/
theorem Notice.Inner.ne_outer {n : Notice} (h : n.Inner) : n ≠ .ended ∧ ∀ f, n ≠ .failed f := by
  constructor
  · rintro rfl
    exact h
  · rintro f rfl
    exact h

namespace Interp

/-- The limiter is loaded alone, and no statement has been started. -/
structure Limited (s : Interp Observer) (limit : Nat) : Prop where
  pos : 1 ≤ limit
  hooks : Extension.subscribeAll #[] [StepLimit.subscription limit] = .ok s.hooks
  fresh : s.steps = 0

variable {s : Interp Observer} {tape : Tape} {limit cut : Nat}

/-- An interpreter for which the extension has been loaded alone has a limiter. -/
theorem limited_of_load {path : String} {raw : Option String} (hfresh : s.steps = 0)
    (h : Extension.stepLimit.load path raw #[] = .ok s.hooks) :
    ∃ limit, StepLimit.read raw = .ok limit ∧ s.Limited limit := by
  obtain ⟨limit, hread, hpos, hhooks⟩ := Extension.load_stepLimit h
  exact ⟨limit, hread, hpos, hhooks, hfresh⟩

/-- Below the cut the run is the one without listeners. -/
theorem Limited.run_eq (h : s.Limited limit) (hcut : StepLimit.IsCut limit cut) {fuel : Nat}
    (hbound : ((s.hush s.journal).run fuel tape).state.steps < cut) :
    (s.run fuel tape).hush s.journal = (s.hush s.journal).run fuel tape := by
  have hhooks := StepLimit.hooks_eq h.pos h.hooks
  exact run_single rfl hhooks
    (Moment.passive_of_watched (fun m hm => hcut.lt_limit hm) s.journal)
    (fun t m hinv => hinv.hooks) (fun p => ⟨⟨0, hhooks⟩, List.forall_mem_singleton.2 rfl⟩) hbound

/-- Below the cut execution comes to where it comes without listeners. -/
theorem Limited.exists_running (h : s.Limited limit) (hcut : StepLimit.IsCut limit cut)
    {p : Program} {c d : Config Observer} (hc : (s.hush s.journal).begin p tape = .ok c) {m : Nat}
    (hd : c.advance m = .running d) (hlt : d.state.steps < cut) :
    ∃ c₀ e, s.begin p tape = .ok c₀ ∧ c₀.advance m = .running e ∧ e.hush s.journal = d ∧
      e.moment.Watched (StepLimit.interval_pos h.pos) limit e.state := by
  have hhooks := StepLimit.hooks_eq h.pos h.hooks
  obtain rfl := Except.ok.inj ((begin_hush s s.journal p tape true).symm.trans hc)
  obtain ⟨heq, hkeeps⟩ := (Moment.passive_of_watched (fun m hm => hcut.lt_limit hm)
    s.journal).advance (c := ⟨s.load p tape, p.statements, true, []⟩)
    ⟨⟨0, hhooks⟩, List.forall_mem_singleton.2 rfl⟩ (m := m) (by rwa [hd])
  obtain ⟨e, he, hhush⟩ := Progress.hush_eq_running (heq.trans hd)
  rw [he] at hkeeps
  exact ⟨_, e, begin_single rfl hhooks p tape, he, hhush, hkeeps⟩

/-- Where the run without listeners starts the statement at the cut, the limiter stops the run. -/
theorem Limited.exists_stopped (h : s.Limited limit) (hcut : StepLimit.IsCut limit cut)
    {p : Program} (hp : s.parse = .ok p) {d : Config Observer} {n : Node}
    (hd : (s.hush s.journal).Starts p tape cut d n) :
    ∃ t log, t.Alike { d.state.start n with reports := s.reports.push (StepLimit.report limit) } ∧
      t.steps = cut ∧ s.EndsIn tape (.stopped ⟨.exit Observer.limitCode, t⟩) ∧
      s.Tells p tape log (.stopped ⟨.exit Observer.limitCode, t⟩) ∧
      ∀ a ∈ log, a.notice ≠ .ended ∧ ∀ f, a.notice ≠ .failed f := by
  obtain ⟨c, m, hbegin, hadvance⟩ := hd.reached
  obtain ⟨rest, hrest⟩ := hd.next
  have hcount : d.state.steps + 1 = s.steps + cut := hd.count
  rw [h.fresh, Nat.zero_add] at hcount
  have hreports : d.state.reports = s.reports := by
    obtain ⟨log, path⟩ := c.exists_arrives m
    rw [hadvance] at path
    obtain rfl := Except.ok.inj ((begin_hush s s.journal p tape true).symm.trans hbegin)
    exact (Config.Leads.reports_eq path rfl).2
  obtain ⟨c₀, e, hstart, he, rfl, hwatched⟩ :=
    h.exists_running hcut hbegin hadvance (Nat.lt_of_succ_le (Nat.le_of_eq hcount))
  obtain ⟨t, hstep, hsame⟩ :=
    Config.step_limited hcut.1.1 hcut.1.2 hwatched hrest hcount s.journal
  have hreports : e.state.reports = s.reports := hreports
  rw [hreports] at hsame
  have halike : t.Alike { (e.hush s.journal).state.start n with
      reports := s.reports.push (StepLimit.report limit) } := alike_of_hush_eq hsame
  have hhalt := (Config.advance_succ he).trans hstep
  obtain ⟨log, hlog⟩ := c₀.exists_arrives (m + 1)
  rw [hhalt] at hlog
  obtain ⟨mo, path⟩ := hlog
  refine ⟨t, s.opening p tape :: log, halike, halike.steps.trans hcount, ⟨trivial, m + 1, ?_⟩,
    .passed hstart path rfl, List.forall_mem_cons.2 ⟨⟨?_, ?_⟩, ?_⟩⟩
  · rw [run_of_begin hp hstart, hhalt]
    rfl
  · exact fun he => nomatch he
  · exact fun f he => nomatch he
  · exact fun a ha => (path.inner a ha).ne_outer

/-- A run without listeners that comes to the cut is stopped there by the limiter. -/
theorem Limited.exists_stopped_of_le (h : s.Limited limit) (hcut : StepLimit.IsCut limit cut)
    (hreach : ∃ fuel, cut ≤ ((s.hush s.journal).run fuel tape).state.steps) :
    ∃ p d n t log, s.parse = .ok p ∧ (s.hush s.journal).Starts p tape cut d n ∧
      t.Alike { d.state.start n with reports := s.reports.push (StepLimit.report limit) } ∧
      t.steps = cut ∧ s.EndsIn tape (.stopped ⟨.exit Observer.limitCode, t⟩) ∧
      s.Tells p tape log (.stopped ⟨.exit Observer.limitCode, t⟩) ∧
      ∀ a ∈ log, a.notice ≠ .ended ∧ ∀ f, a.notice ≠ .failed f := by
  have hpos : 1 ≤ cut := Nat.le_trans h.pos hcut.1.2
  have hfresh : (s.hush s.journal).steps = 0 := h.fresh
  cases hp : s.parse with
  | error e =>
    obtain ⟨fuel, hfuel⟩ := hreach
    have hparse : (s.hush s.journal).parse = .error e := hp
    rw [run, hparse] at hfuel
    exact absurd (hfresh ▸ hfuel) (Nat.not_le_of_lt hpos)
  | ok p =>
    have hparse : (s.hush s.journal).parse = .ok p := hp
    obtain ⟨d, n, hd⟩ := exists_starts hparse hpos (by rwa [hfresh, Nat.zero_add])
    obtain ⟨t, log, hends⟩ := h.exists_stopped hcut hp hd
    exact ⟨p, d, n, t, log, rfl, hd, hends⟩

/-- A run without listeners that spins below the cut spins with the limiter as well. -/
theorem Limited.stalls (h : s.Limited limit) (hcut : StepLimit.IsCut limit cut) {count : Nat}
    (hlt : count < cut) (hs : (s.hush s.journal).Stalls tape count) : s.Stalls tape count := by
  obtain ⟨p, c, m, d, hp, hc, hd, hspins, hcount⟩ := hs
  have hcount : d.state.steps = s.steps + count := hcount
  obtain ⟨c₀, e, hstart, he, rfl, -⟩ :=
    h.exists_running hcut hc hd (by rw [hcount, h.fresh]; omega)
  obtain ⟨l, outer, hloops, hbody⟩ := hspins.empty_body
  obtain ⟨l', outer', hloops', rfl, -⟩ := List.map_eq_cons_iff.1 hloops
  exact ⟨p, c₀, m, e, hp, hstart, he, ⟨hspins.rest_nil, ⟨l', outer', hloops', hbody⟩,
    hspins.cell_ne⟩, hcount⟩

/-- A run without listeners that ends below the cut ends alike with the limiter. -/
theorem Limited.exists_alike (h : s.Limited limit) (hcut : StepLimit.IsCut limit cut)
    {w : Verdict Observer} (hw : (s.hush s.journal).EndsIn tape w) (hlt : w.state.steps < cut) :
    ∃ v, s.EndsIn tape v ∧ v.Alike w := by
  obtain ⟨hsettled, fuel, rfl⟩ := hw
  have heq := h.run_eq hcut hlt
  rw [← heq, Verdict.settled_hush] at hsettled
  exact ⟨s.run fuel tape, ⟨hsettled, fuel, rfl⟩, heq ▸ Verdict.alike_hush hsettled s.journal⟩

/-- A run without listeners ends, comes to the cut or spins before it. -/
theorem Limited.endsIn_or_le_or_stalls (h : s.Limited limit) (tape : Tape) (cut : Nat) :
    (∃ w, (s.hush s.journal).EndsIn tape w) ∨
      (∃ fuel, cut ≤ ((s.hush s.journal).run fuel tape).state.steps) ∨
      ∃ count < cut, (s.hush s.journal).Stalls tape count := by
  by_cases hreach : ∃ fuel, cut ≤ ((s.hush s.journal).run fuel tape).state.steps
  · exact .inr (.inl hreach)
  · have hfresh : (s.hush s.journal).steps = 0 := h.fresh
    have hbelow (fuel : Nat) :
        ((s.hush s.journal).run fuel tape).state.steps < (s.hush s.journal).steps + cut := by
      rw [hfresh, Nat.zero_add]
      exact Nat.lt_of_not_le fun hle => hreach ⟨fuel, hle⟩
    exact ((s.hush s.journal).endsIn_or_stalls tape cut hbelow).imp_right .inr

/-- The run ends, unless it spins before it comes to the cut. -/
theorem Limited.exists_endsIn_iff (h : s.Limited limit) (hcut : StepLimit.IsCut limit cut) :
    (∃ v, s.EndsIn tape v) ↔ ¬∃ count < cut, (s.hush s.journal).Stalls tape count := by
  constructor
  · rintro ⟨v, hv⟩ ⟨count, hlt, hs⟩
    exact (h.stalls hcut hlt hs).not_endsIn v hv
  · intro hno
    rcases h.endsIn_or_le_or_stalls tape cut with ⟨w, hw⟩ | hreach | hstalls
    · by_cases hlt : w.state.steps < cut
      · obtain ⟨v, hv, -⟩ := h.exists_alike hcut hw hlt
        exact ⟨v, hv⟩
      · obtain ⟨-, fuel, rfl⟩ := hw
        obtain ⟨-, -, -, t, -, -, -, -, -, hends, -⟩ :=
          h.exists_stopped_of_le hcut ⟨fuel, Nat.le_of_not_lt hlt⟩
        exact ⟨_, hends⟩
    · obtain ⟨-, -, -, t, -, -, -, -, -, hends, -⟩ := h.exists_stopped_of_le hcut hreach
      exact ⟨_, hends⟩
    · exact absurd hstalls hno

/-- No run starts more statements than the cut. -/
theorem Limited.steps_le (h : s.Limited limit) (hcut : StepLimit.IsCut limit cut) (fuel : Nat) :
    (s.run fuel tape).state.steps ≤ cut := by
  by_cases hbelow : ((s.hush s.journal).run fuel tape).state.steps < cut
  · have heq := congrArg (fun v => v.state.steps) (h.run_eq hcut hbelow)
    rw [Verdict.state_hush] at heq
    exact Nat.le_of_lt (heq ▸ hbelow)
  · obtain ⟨-, -, -, t, -, -, -, -, hsteps, hends, -⟩ :=
      h.exists_stopped_of_le hcut ⟨fuel, Nat.le_of_not_lt hbelow⟩
    obtain ⟨hsettled, m, hm⟩ := hends
    have hle := s.run_steps_le tape fuel m
    rw [Nat.add_comm, run_stable (hm ▸ hsettled), hm] at hle
    exact hsteps ▸ hle

/-- What the limiter does to a run. A run without listeners that ends below the cut ends alike with
the limiter. One that comes to the cut is stopped there with exit code 124 and one report, with the
tape and the output of the moment, and neither its end nor a fault is announced. One that does
neither spins below the cut. Every run ends but one that spins there, and no run starts more than
999 statements above the limit. -/
theorem run_limited (s : Interp Observer) (tape : Tape) {limit cut : Nat} (h : s.Limited limit)
    (hcut : StepLimit.IsCut limit cut) :
    let quiet : Interp Observer := { s with hooks := #[] }
    (∀ w, quiet.EndsIn tape w → w.state.steps < cut → ∃ v, s.EndsIn tape v ∧ v.Alike w) ∧
    ((∃ fuel, cut ≤ (quiet.run fuel tape).state.steps) →
      ∃ p d n t log, s.parse = .ok p ∧ quiet.Starts p tape cut d n ∧
        t.Alike { d.state.start n with
          reports := s.reports.push s!"Step limit of {limit} instructions exceeded" } ∧
        t.steps = cut ∧ s.EndsIn tape (.stopped ⟨.exit 124, t⟩) ∧
        s.Tells p tape log (.stopped ⟨.exit 124, t⟩) ∧
        ∀ a ∈ log, a.notice ≠ .ended ∧ ∀ f, a.notice ≠ .failed f) ∧
    ((∃ w, quiet.EndsIn tape w) ∨ (∃ fuel, cut ≤ (quiet.run fuel tape).state.steps) ∨
      ∃ count < cut, quiet.Stalls tape count) ∧
    ((∃ v, s.EndsIn tape v) ↔ ¬∃ count < cut, quiet.Stalls tape count) ∧
    ∀ fuel, (s.run fuel tape).state.steps ≤ limit + 999 :=
  ⟨fun _ hw hlt => h.exists_alike hcut hw hlt, h.exists_stopped_of_le hcut,
    h.endsIn_or_le_or_stalls tape cut, h.exists_endsIn_iff hcut,
    fun fuel => Nat.le_trans (h.steps_le hcut fuel) (hcut.le_limit_add h.pos)⟩

open Evaluation in
/-- The program `+[+-]` goes on for ever. With a limit of five it is stopped in the second pass. -/
theorem run_limited_in_second_pass :
    let s : Interp Observer :=
      { source := "+[+-]", file := "a", hooks := #[⟨.every 5 (by decide), .limiter 5, 0⟩] }
    let tape : Tape := ⟨2, Vector.replicate 2 0, 1⟩
    Extension.stepLimit.load "steplimit.py" (some "5") #[] = .ok s.hooks ∧
      StepLimit.IsCut 5 5 ∧ ∃ t, s.EndsIn tape (.stopped ⟨.exit 124, t⟩) ∧ t.steps = 5 ∧
        t.reports = #["Step limit of 5 instructions exceeded"] ∧
        ∀ fuel, (s.run fuel tape).state.steps ≤ 1004 := by
  intro s tape
  have hload : Extension.stepLimit.load "steplimit.py" (some "5") #[] = .ok s.hooks := by rfl
  obtain ⟨limit, hread, hlimited⟩ := limited_of_load (s := s) rfl hload
  obtain rfl : limit = 5 := Except.ok.inj (hread.symm.trans (by rfl))
  have hcut : StepLimit.IsCut 5 5 := ⟨⟨by decide, Nat.le_refl 5⟩, fun m hm => hm.2⟩
  have htokens : Source.ofText "+[+-]" "a" =
      ⟨#[⟨.op .increment, 1, 1⟩, ⟨.opening, 1, 2⟩, ⟨.op .increment, 1, 3⟩, ⟨.op .decrement, 1, 4⟩,
        ⟨.closing, 1, 5⟩, ⟨.finish, 1, 6⟩], "a", #["+[+-]"]⟩ := rfl
  let body : List Node :=
    [.op .increment (some ⟨"a", 1, 3, "+[+-]"⟩), .op .decrement (some ⟨"a", 1, 4, "+[+-]"⟩)]
  let p : Program :=
    ⟨[.op .increment (some ⟨"a", 1, 1, "+[+-]"⟩), .loop ⟨"a", 1, 2, "+[+-]"⟩ body],
      ⟨"a", 1, 6, "+[+-]"⟩⟩
  let quiet : Interp Observer := { s with hooks := #[] }
  have hp : quiet.parse = .ok p := by
    rw [parse, Program.parse, htokens]
    exact Program.ofSource_eq_ok_iff.2 ⟨by decide,
      .op rfl (.loop rfl (.op rfl (.op rfl (.nil _ _))) rfl (.nil _ _)),
      by simp [p, body, Node.depth, Program.maxNesting], rfl⟩
  have hsteps : (quiet.run 6 tape).state.steps = 5 := by
    rw [run, hp]
    simp [quiet, s, tape, p, body, Verdict.state]
  obtain ⟨-, hstopped, -, -, hbound⟩ := run_limited s tape hlimited hcut
  obtain ⟨_, d, n, t, _, -, -, halike, hcount, hends, -⟩ := hstopped ⟨6, Nat.le_of_eq hsteps.symm⟩
  exact ⟨hload, hcut, t, hends, hcount, halike.reports, hbound⟩

open Evaluation in
/-- A pass over an empty body starts no statement: in `+[]` the limiter is never asked, and the run
never ends. -/
theorem limited_empty_loop_never_ends :
    let s : Interp Observer :=
      { source := "+[]", file := "a", hooks := #[⟨.every 3 (by decide), .limiter 3, 0⟩] }
    let quiet : Interp Observer := { s with hooks := #[] }
    let tape : Tape := ⟨2, Vector.replicate 2 0, 1⟩
    s.Limited 3 ∧ StepLimit.IsCut 3 3 ∧ (∀ w, ¬quiet.EndsIn tape w) ∧ ∀ v, ¬s.EndsIn tape v := by
  intro s quiet tape
  have hlimited : s.Limited 3 := ⟨by decide, rfl, rfl⟩
  have hcut : StepLimit.IsCut 3 3 := ⟨⟨by decide, Nat.le_refl 3⟩, fun m hm => hm.2⟩
  have htokens : Source.ofText "+[]" "a" =
      ⟨#[⟨.op .increment, 1, 1⟩, ⟨.opening, 1, 2⟩, ⟨.closing, 1, 3⟩, ⟨.finish, 1, 4⟩], "a",
        #["+[]"]⟩ := rfl
  let l : ActiveLoop := ⟨⟨"a", 1, 2, "+[]"⟩, [], [], false⟩
  let p : Program :=
    ⟨[.op .increment (some ⟨"a", 1, 1, "+[]"⟩), l.node], ⟨"a", 1, 4, "+[]"⟩⟩
  have hp : quiet.parse = .ok p := by
    rw [parse, Program.parse, htokens]
    exact Program.ofSource_eq_ok_iff.2 ⟨by decide, .op rfl (.loop rfl (.nil _ _) rfl (.nil _ _)),
      by simp [p, l, ActiveLoop.node, Node.depth, Program.maxNesting], rfl⟩
  have hstalls : quiet.Stalls tape 2 := by
    let start : Config Observer := Config.hush s.journal ⟨s.load p tape, p.statements, false, []⟩
    let looped : Interp Observer :=
      { (start.state.alter (Tape.modify (· + 1))) with
        steps := 2, stack := [Frame.ofLoop l.location, ⟨topLevel, some p.finish, some l.node⟩] }
    refine ⟨p, start, 2, ⟨looped, [], false, [l]⟩, hp, begin_hush s s.journal p tape false, ?_,
      ⟨rfl, ⟨l, [], rfl, rfl⟩, ?_⟩, rfl⟩
    · simp [start, looped, s, tape, p, l, Config.hush, Interp.hush]
    · decide
  exact ⟨hlimited, hcut, hstalls.not_endsIn, (hlimited.stalls hcut (by decide) hstalls).not_endsIn⟩

end Interp

end TapeLang
