import TapeLang.Proofs.Outcomes

/-!
# What gets out of a command

Whatever stops a run, unless it quits, a command with a program reports it and ends with a status.
The shell reports faults and goes on, and an exit leaves it with a status, but it does not catch
interrupts: an entry that is interrupted ends the command without a status, and nothing says so.
Whoever quits ends the command without a status in either case.
-/

namespace TapeLang

variable {L : Type}

/-- The word of the interrupt that stopped a run, if one did. -/
def Verdict.interruption? : Verdict L → Option String
  | .stopped ⟨.interrupt word, _⟩ => some word
  | _ => none

/-- The escape of whoever quit a run, if somebody did. -/
def Verdict.quitting? : Verdict L → Option Escape
  | .stopped ⟨.quit kind word, _⟩ => some (.quit kind word)
  | _ => none

/-- How a run that was entered leaves the shell, if it does. -/
def Verdict.departure? : Verdict L → Option Ending
  | .stopped ⟨.exit code, _⟩ => some (.status code)
  | .stopped ⟨.interrupt word, _⟩ => some (.escaped (.interrupt word))
  | .stopped ⟨.quit kind word, _⟩ => some (.escaped (.quit kind word))
  | .stopped ⟨.failure f, _⟩ => some (.escaped (.failure f))
  | .unfinished _ => some .unfinished
  | .stopped ⟨.fault _, _⟩ | .unparsed _ _ | .finished _ => none

namespace Shell

/-- The text that is run when the shell reads a line, if there is one: the line itself at the first
prompt, unless it is blank or one of the two words, and the block when a blank line closes it. -/
def submitted? (s : Shell L) (line : String) : Option String :=
  let stripped := Text.strip line.toList
  if s.block.isEmpty then
    if stripped = [] ∨ stripped = "exit".toList ∨ stripped = "help".toList then none
    else some line
  else if stripped = [] then some ("\n".intercalate s.block.toList)
  else none

variable [Listener L]

/-- The run that a line brings about, if it brings one about. -/
def ran (fuel : Nat) (s : Shell L) (line : String) : List (Verdict L) :=
  (s.submitted? line).toList.map fun text =>
    ({ source := text, file, hooks := s.hooks } : Interp L).run fuel Tape.fresh

/-- The runs of a session, in order. -/
def verdicts (fuel : Nat) (s : Shell L) : List String → List (Verdict L)
  | [] => []
  | line :: rest =>
    match s.prompt.read fuel line with
    | .stay t => s.ran fuel line ++ t.verdicts fuel rest
    | .leave _ => s.ran fuel line

/-- The first departure among some runs, or an orderly end. -/
def parting (vs : List (Verdict L)) : Ending := (vs.filterMap Verdict.departure?).headD (.status 0)

variable {s : Shell L} {fuel : Nat}

/-- An entry leaves the shell exactly as its run does. -/
theorem enter_departure (s : Shell L) (fuel : Nat) (text : String)
    (refused : ParseError → Shell L) :
    (({ source := text, file, hooks := s.hooks } : Interp L).run fuel Tape.fresh).departure? =
      match s.enter fuel text refused with
      | .stay _ => none
      | .leave t => some t.ending := by
  rw [enter]
  cases Interp.run fuel { source := text, file, hooks := s.hooks } Tape.fresh with
  | unparsed | finished | unfinished => rfl
  | stopped halt =>
    obtain ⟨stop, i⟩ := halt
    cases stop <;> rfl

/-- A line that submits a text has it run. Any other line is only noted, or leaves the shell in good
order. -/
theorem read_cases (s : Shell L) (fuel : Nat) (line : String) :
    (∃ (s' : Shell L) (text : String) (refused : ParseError → Shell L), s'.hooks = s.hooks ∧
      s.submitted? line = some text ∧ s.read fuel line = s'.enter fuel text refused) ∨
    s.submitted? line = none ∧ ((∃ t, s.read fuel line = .stay t) ∨
      ∃ t, s.read fuel line = .leave t ∧ t.ending = .status 0) := by
  cases hblock : s.block.isEmpty with
  | true =>
    by_cases hword : Text.strip line.toList = [] ∨ Text.strip line.toList = "exit".toList ∨
        Text.strip line.toList = "help".toList
    · refine .inr ⟨by rw [submitted?, if_pos hblock, if_pos hword], ?_⟩
      rw [read, if_pos hblock]
      rcases hword with hblank | hexit | hhelp
      · rw [hblank]
        exact .inl ⟨_, rfl⟩
      · rw [hexit]
        exact .inr ⟨_, rfl, rfl⟩
      · rw [hhelp]
        exact .inl ⟨_, rfl⟩
    · have hentry : s.Entry line := by
        obtain ⟨hblank, hexit, hhelp⟩ := not_or.1 hword |>.imp_right not_or.1
        exact ⟨hblock, hblank, hexit, hhelp⟩
      exact .inl ⟨s, line, _, rfl, by rw [submitted?, if_pos hblock, if_neg hword],
        hentry.read_eq fuel⟩
  | false =>
    have hopen : ¬s.block.isEmpty = true := ne_true_of_eq_false hblock
    by_cases hblank : Text.strip line.toList = []
    · exact .inl ⟨{ s with block := #[] }, _, _, rfl,
        by rw [submitted?, if_neg hopen, if_pos hblank], read_blank hblock hblank⟩
    · exact .inr ⟨by rw [submitted?, if_neg hopen, if_neg hblank],
        .inl ⟨_, read_more hblock hblank⟩⟩

/-- A line leaves the shell as the run does that it brings about, or in good order. -/
theorem read_departure (s : Shell L) (fuel : Nat) (line : String) :
    match s.read fuel line with
    | .stay _ => (s.ran fuel line).filterMap Verdict.departure? = []
    | .leave t => parting (s.ran fuel line) = t.ending := by
  rcases s.read_cases fuel line with
    ⟨s', text, refused, hooks, hsubmitted, hread⟩ | ⟨hsubmitted, ⟨t, hread⟩ | ⟨t, hread, hstatus⟩⟩
  · have hdeparture := s'.enter_departure fuel text refused
    rw [hooks] at hdeparture
    rw [hread]
    cases hturn : s'.enter fuel text refused with
    | stay t =>
      rw [hturn] at hdeparture
      simp [ran, hsubmitted, hdeparture]
    | leave t =>
      rw [hturn] at hdeparture
      simp [parting, ran, hsubmitted, hdeparture]
  · rw [hread]
    simp [ran, hsubmitted]
  · rw [hread]
    simp [parting, ran, hsubmitted, hstatus]

/-- A session ends as the first of its runs that leaves the shell, and otherwise in good order. -/
theorem session_ending (s : Shell L) (fuel : Nat) (lines : List String) :
    (s.session fuel none lines).ending = parting (s.verdicts fuel lines) := by
  induction lines generalizing s with
  | nil => rfl
  | cons line rest ih =>
    have hdeparture := s.prompt.read_departure fuel line
    have hran : s.prompt.ran fuel line = s.ran fuel line := rfl
    rw [hran] at hdeparture
    rw [session, verdicts]
    cases hread : s.prompt.read fuel line with
    | stay t =>
      rw [hread] at hdeparture
      simp only
      rw [ih, parting, parting, List.filterMap_append, hdeparture, List.nil_append]
    | leave t =>
      rw [hread] at hdeparture
      exact hdeparture.symm

end Shell

/-! ## Runs that get out of the shell -/

namespace Verdict

variable {v : Verdict L} {word : String} {e : Escape}

/-- An interrupted run leaves the shell. -/
theorem departure?_of_interruption (h : v.interruption? = some word) :
    v.departure? = some (.escaped (.interrupt word)) := by
  cases v with
  | unparsed | finished | unfinished => cases h
  | stopped halt =>
    obtain ⟨stop, t⟩ := halt
    cases stop with
    | fault | exit | failure | quit => cases h
    | interrupt word' =>
      cases h
      rfl

/-- A run that somebody quits leaves the shell. -/
theorem departure?_of_quitting (h : v.quitting? = some e) : v.departure? = some (.escaped e) := by
  cases v with
  | unparsed | finished | unfinished => cases h
  | stopped halt =>
    obtain ⟨stop, t⟩ := halt
    cases stop with
    | fault | exit | failure | interrupt => cases h
    | quit kind word =>
      cases h
      rfl

end Verdict

/-- A run that gets out of the shell was interrupted, or somebody quit it. -/
theorem Interp.escape_of_departure [Listener L] {i : Interp L} {tape : Tape} {fuel : Nat}
    {e : Escape} (h : (i.run fuel tape).departure? = some (.escaped e)) :
    (∃ word, (i.run fuel tape).interruption? = some word ∧ e = .interrupt word) ∨
      (i.run fuel tape).quitting? = some e ∧ ∃ kind word, e = .quit kind word := by
  generalize hv : i.run fuel tape = v at h ⊢
  cases v with
  | unparsed | finished | unfinished => cases h
  | stopped halt =>
    obtain ⟨stop, t⟩ := halt
    cases stop with
    | fault | exit => cases h
    | failure f => exact absurd hv (i.run_ne_failure _ _ _ _)
    | interrupt word =>
      cases h
      exact .inl ⟨word, rfl, rfl⟩
    | quit kind word =>
      cases h
      exact .inr ⟨rfl, kind, word, rfl⟩

namespace Shell

variable [Listener L] {s : Shell L} {fuel : Nat} {lines : List String}

theorem exists_run_of_mem_ran {v : Verdict L} {line : String} (h : v ∈ s.ran fuel line) :
    ∃ i : Interp L, v = i.run fuel Tape.fresh := by
  obtain ⟨text, -, rfl⟩ := List.mem_map.1 h
  exact ⟨_, rfl⟩

theorem exists_run_of_mem_verdicts {v : Verdict L} (h : v ∈ s.verdicts fuel lines) :
    ∃ i : Interp L, v = i.run fuel Tape.fresh := by
  induction lines generalizing s with
  | nil => cases h
  | cons line rest ih =>
    rw [verdicts] at h
    split at h
    · rcases List.mem_append.1 h with h | h
      · exact exists_run_of_mem_ran h
      · exact ih h
    · exact exists_run_of_mem_ran h

/-- The shell is left once at most. -/
theorem departures_length_le (s : Shell L) (fuel : Nat) (lines : List String) :
    ((s.verdicts fuel lines).filterMap Verdict.departure?).length ≤ 1 := by
  induction lines generalizing s with
  | nil => exact Nat.zero_le 1
  | cons line rest ih =>
    have hdeparture := s.prompt.read_departure fuel line
    have hran : s.prompt.ran fuel line = s.ran fuel line := rfl
    rw [hran] at hdeparture
    rw [verdicts]
    cases hread : s.prompt.read fuel line with
    | stay t =>
      rw [hread] at hdeparture
      simp only
      rw [List.filterMap_append, hdeparture, List.nil_append]
      exact ih t
    | leave t =>
      refine (List.length_filterMap_le _ _).trans ?_
      rw [ran, List.length_map]
      cases s.submitted? line <;> simp

/-- The session is left in the way of any run in it that leaves the shell. -/
theorem parting_verdicts {v : Verdict L} {ending : Ending} (h : v ∈ s.verdicts fuel lines)
    (hv : v.departure? = some ending) : parting (s.verdicts fuel lines) = ending := by
  have hmem : ending ∈ (s.verdicts fuel lines).filterMap Verdict.departure? :=
    List.mem_filterMap.2 ⟨v, h, hv⟩
  have hlength := s.departures_length_le fuel lines
  rw [parting]
  generalize (s.verdicts fuel lines).filterMap Verdict.departure? = endings at hmem hlength ⊢
  obtain _ | ⟨first, _ | _⟩ := endings
  · cases hmem
  · exact (List.mem_singleton.1 hmem).symm
  · simp at hlength

/-- A session is left in the way of one of its runs, or in good order. -/
theorem parting_cases (s : Shell L) (fuel : Nat) (lines : List String) :
    parting (s.verdicts fuel lines) = .status 0 ∨ ∃ v ∈ s.verdicts fuel lines,
      v.departure? = some (parting (s.verdicts fuel lines)) := by
  rw [parting]
  cases h : (s.verdicts fuel lines).filterMap Verdict.departure? with
  | nil => exact .inl rfl
  | cons ending rest =>
    refine .inr ?_
    have hmem : ending ∈ (s.verdicts fuel lines).filterMap Verdict.departure? := by
      rw [h]
      exact List.mem_cons_self
    exact List.mem_filterMap.1 hmem

/-- What gets out of a session is what got out of one of its runs. -/
theorem exists_escape_of_parting {e : Escape}
    (h : parting (s.verdicts fuel lines) = .escaped e) : ∃ v ∈ s.verdicts fuel lines,
      (∃ word, v.interruption? = some word ∧ e = .interrupt word) ∨
        v.quitting? = some e ∧ ∃ kind word, e = .quit kind word := by
  rcases s.parting_cases fuel lines with hstatus | ⟨v, hv, hdeparture⟩
  · cases hstatus.symm.trans h
  · obtain ⟨i, rfl⟩ := exists_run_of_mem_verdicts hv
    rw [h] at hdeparture
    exact ⟨_, hv, Interp.escape_of_departure hdeparture⟩

/-- An interrupt gets out of a session exactly when it stops one of its runs. -/
theorem parting_eq_interrupt_iff {word : String} :
    parting (s.verdicts fuel lines) = .escaped (.interrupt word) ↔
      ∃ v ∈ s.verdicts fuel lines, v.interruption? = some word := by
  constructor
  · intro h
    obtain ⟨v, hv, ⟨word', hword, hescape⟩ | ⟨-, kind, word', hescape⟩⟩ :=
      exists_escape_of_parting h
    · cases hescape
      exact ⟨v, hv, hword⟩
    · cases hescape
  · rintro ⟨v, hv, hword⟩
    exact parting_verdicts hv (Verdict.departure?_of_interruption hword)

/-- Somebody who quits gets out of a session exactly when this stops one of its runs. -/
theorem parting_eq_quit_iff {kind word : String} :
    parting (s.verdicts fuel lines) = .escaped (.quit kind word) ↔
      ∃ v ∈ s.verdicts fuel lines, v.quitting? = some (.quit kind word) := by
  constructor
  · intro h
    obtain ⟨v, hv, ⟨word', -, hescape⟩ | ⟨hquit, -⟩⟩ := exists_escape_of_parting h
    · cases hescape
    · exact ⟨v, hv, hquit⟩
  · rintro ⟨v, hv, hquit⟩
    exact parting_verdicts hv (Verdict.departure?_of_quitting hquit)

/-- A session whose runs have ended ends with a status, unless one of them was interrupted or
quit. -/
theorem parting_eq_status_iff (hsettled : ∀ v ∈ s.verdicts fuel lines, v.Settled) :
    (∃ code, parting (s.verdicts fuel lines) = .status code) ↔
      ∀ v ∈ s.verdicts fuel lines, v.interruption? = none ∧ v.quitting? = none := by
  constructor
  · rintro ⟨code, hcode⟩ v hv
    have hstays : ∀ e, v.departure? ≠ some (.escaped e) := fun e he => by
      cases hcode.symm.trans (parting_verdicts hv he)
    exact ⟨Option.eq_none_iff_forall_ne_some.2 fun word h =>
        hstays _ (Verdict.departure?_of_interruption h),
      Option.eq_none_iff_forall_ne_some.2 fun e h => hstays _ (Verdict.departure?_of_quitting h)⟩
  · intro hnone
    cases hending : parting (s.verdicts fuel lines) with
    | status code => exact ⟨code, rfl⟩
    | escaped e =>
      obtain ⟨v, hv, ⟨word, hword, -⟩ | ⟨hquit, -⟩⟩ := exists_escape_of_parting hending
      · cases (hnone v hv).1.symm.trans hword
      · cases (hnone v hv).2.symm.trans hquit
    | unfinished =>
      rcases s.parting_cases fuel lines with hstatus | ⟨v, hv, hdeparture⟩
      · cases hstatus.symm.trans hending
      · rw [hending] at hdeparture
        have hover := hsettled v hv
        cases v with
        | unfinished c => exact hover.elim
        | unparsed | finished => cases hdeparture
        | stopped halt =>
          obtain ⟨stop, t⟩ := halt
          cases stop <;> cases hdeparture

/-- A line at the first prompt that is neither blank nor one of the two words is run. -/
theorem mem_verdicts_of_entry {line : String} {rest : List String} (h : s.Entry line) :
    ({ source := line, file, hooks := s.hooks } : Interp L).run fuel Tape.fresh ∈
      s.verdicts fuel (line :: rest) := by
  have hsubmitted : s.submitted? line = some line := by
    rw [submitted?, if_pos h.primary, if_neg]
    exact not_or.2 ⟨h.not_blank, not_or.2 ⟨h.not_exit, h.not_help⟩⟩
  have hran : ({ source := line, file, hooks := s.hooks } : Interp L).run fuel Tape.fresh ∈
      s.ran fuel line := List.mem_map.2 ⟨line, by simp [hsubmitted], rfl⟩
  rw [verdicts]
  split
  · exact List.mem_append_left _ hran
  · exact hran

/-- An entry that is interrupted is the last thing in a session. -/
theorem session_of_interrupted {line word : String} {u : Interp L} (hentry : s.prompt.Entry line)
    (hrun : ({ source := line, file, hooks := s.hooks } : Interp L).run fuel Tape.fresh =
      .stopped ⟨.interrupt word, u⟩) (refusal : Option Text.Utf8.DecodeError)
    (rest : List String) :
    s.session fuel refusal (line :: rest) =
      ⟨(s.prompt.after u).console, .escaped (.interrupt word)⟩ := by
  have henter : s.prompt.enter fuel line (fun _ => { s.prompt with block := #[line] }) =
      .leave ⟨(s.prompt.after u).console, .escaped (.interrupt word)⟩ := by
    have hhooks : s.prompt.hooks = s.hooks := rfl
    rw [enter, hhooks, hrun]
  rw [session, hentry.read_eq, henter]

end Shell

/-! ## An interrupt at the third instruction -/

namespace Interp

variable [Listener L] {s : Interp L} {l : L} {k calls : Nat} {pos : 0 < k}

/-- A listener of every so many instructions hears nothing of one whose number is no multiple. -/
theorem step_of_deaf (place : Option Location) (rest : List Node)
    (hs : s.hooks = #[⟨.every k pos, l, calls⟩]) (hcount : ¬(s.steps + 1) % k = 0) :
    ∃ t : Interp L, Config.step ⟨s, .op .increment place :: rest, true, []⟩ =
      .running ⟨t, rest, true, []⟩ ∧
      t.hooks = s.hooks ∧ t.steps = s.steps + 1 ∧ t.sink = s.sink ∧ t.reports = s.reports := by
  let t : Interp L := s.start (.op .increment place)
  let u : Interp L := t.alter (Tape.modify (· + 1))
  obtain ⟨tape, bench, hu⟩ : ∃ tape bench, u = { t with tape, bench } := by
    simp only [u, alter]
    split <;> exact ⟨_, _, rfl⟩
  have huhooks : u.hooks = #[⟨.every k pos, l, calls⟩] := by
    rw [hu]
    exact hs
  have hcount : decide (((s.steps + 1 : Nat) : Int) % k = 0) = false :=
    decide_eq_false (by exact_mod_cast hcount)
  have hbefore : t.announce (.before (.op .increment place)) = .ok t := announce_of_deaf hs rfl
  have htick : t.announce (.tick t.steps) = .ok t := announce_of_deaf hs hcount
  have hafter : u.announce (.after (.op .increment place)) = .ok u := announce_of_deaf huhooks rfl
  have hannounced : t.announceBefore true (.op .increment place) = .ok t := by
    rw [announceBefore, if_pos rfl, hbefore]
    exact htick
  have hperformed : Config.perform t (.op .increment place) rest true [] =
      .running ⟨u, rest, true, []⟩ := by
    simp only [Config.perform, operate, announceAfter, if_true]
    rw [hafter]
    rfl
  refine ⟨u, ?_, huhooks.trans hs.symm, ?_⟩
  · rw [Config.step, hannounced]
    exact hperformed
  · rw [hu]
    exact ⟨rfl, rfl, rfl⟩

/-- An interrupter of every so many instructions halts the one whose number is a multiple. -/
theorem step_of_interrupter {s : Interp Observer} (n : Node) (rest : List Node)
    (hs : s.hooks = #[⟨.every k pos, .interrupter, calls⟩]) (hcount : (s.steps + 1) % k = 0) :
    ∃ t : Interp Observer, Config.step ⟨s, n :: rest, true, []⟩ = .halted ⟨.interrupt "", t⟩ ∧
      t.sink = s.sink ∧ t.reports = s.reports := by
  let t : Interp Observer := s.start n
  let u : Interp Observer := t.noteCall 0 .interrupter (.tick t.steps)
  have hcount : decide (((s.steps + 1 : Nat) : Int) % k = 0) = true :=
    decide_eq_true (by exact_mod_cast hcount)
  have hbefore : t.announce (.before n) = .ok t := announce_of_deaf hs rfl
  have hcall : t.callListener 0 ⟨.every k pos, .interrupter, calls⟩ (.tick t.steps) =
      .error ⟨.interrupt "", u⟩ := rfl
  have htick : t.announce (.tick t.steps) = .error ⟨.interrupt "", u⟩ := by
    have hround : t.round (.tick t.steps) = .error ⟨.interrupt "", u⟩ :=
      round_of_hears hs hcount hcall fun _ h => by cases h
    rw [announce_eq, hround]
    rfl
  have hannounced : t.announceBefore true n = .error ⟨.interrupt "", u⟩ := by
    rw [announceBefore, if_pos rfl, hbefore]
    exact htick
  refine ⟨u, ?_, rfl, rfl⟩
  rw [Config.step, hannounced]

/-- The program `+++`, interrupted at its third instruction. -/
theorem run_interrupted (file : String) :
    let i : Interp Observer :=
      { source := "+++", file, hooks := #[⟨.every 3 (by decide), .interrupter, 0⟩] }
    ∃ u : Interp Observer, i.run 3 Tape.fresh = .stopped ⟨.interrupt "", u⟩ ∧
      u.sink = i.sink ∧ u.reports = i.reports := by
  intro i
  let place (k : Nat) : Option Location := some ((Source.ofText "+++" file).place k)
  let nodes : List Node :=
    [.op .increment (place 0), .op .increment (place 1), .op .increment (place 2)]
  have hspells : Spells (Source.ofText "+++" file) true 0 3 nodes :=
    .op rfl (.op rfl (.op rfl (.nil true 3)))
  have hsize : (Source.ofText "+++" file).tokens.size = 4 := rfl
  obtain ⟨finish, hparse⟩ : ∃ finish, i.parse = .ok ⟨nodes, finish⟩ :=
    Program.exists_parse_of_spells hsize hspells (by simp [Node.depth, nodes])
  have hbegin := begin_single (s := i) rfl rfl ⟨nodes, finish⟩ Tape.fresh
  obtain ⟨b, hload⟩ : ∃ b, b = i.load ⟨nodes, finish⟩ Tape.fresh := ⟨_, rfl⟩
  have hhooks : b.hooks = i.hooks := by rw [hload, load]
  have hsteps : b.steps = 0 := by rw [hload, load]
  have hsink : b.sink = i.sink := by rw [hload, load]
  have hreports : b.reports = i.reports := by rw [hload, load]
  obtain ⟨t, hfirst, htHooks, htSteps, htSink, htReports⟩ :=
    step_of_deaf (place 0) [.op .increment (place 1), .op .increment (place 2)] hhooks
      (by rw [hsteps]; decide)
  obtain ⟨u, hsecond, huHooks, huSteps, huSink, huReports⟩ :=
    step_of_deaf (place 1) [.op .increment (place 2)] (htHooks.trans hhooks)
      (by rw [htSteps, hsteps]; decide)
  obtain ⟨v, hthird, hvSink, hvReports⟩ :=
    step_of_interrupter (.op .increment (place 2)) [] (huHooks.trans (htHooks.trans hhooks))
      (by rw [huSteps, htSteps, hsteps])
  refine ⟨v, ?_, by rw [hvSink, huSink, htSink, hsink],
    by rw [hvReports, huReports, htReports, hreports]⟩
  rw [← hload] at hbegin
  rw [run_of_begin hparse hbegin]
  simp only [Config.advance]
  rw [hfirst]
  simp only
  rw [hsecond]
  simp only
  rw [hthird]
  rfl

end Interp

namespace Command

/-- The surroundings of a command with an extension that interrupts at every third instruction. -/
def interrupting : Surroundings where
  directory := "/d"
  find _ := .ok { extension := .subscribing [(.every 3, .interrupter)] }
  input := .piped "+++\n".toUTF8.data.toList

theorem interrupting_loads (path : String) :
    loadAll interrupting #[] [some path] = .ok #[⟨.every 3 (by decide), .interrupter, 0⟩] := rfl

theorem interrupting_feed :
    Text.Feed.ofBytes "+++\n".toUTF8.data.toList = ⟨["+++"], none⟩ := by decide +kernel

theorem ofArgs_shell : Settings.ofArgs ["-i", "--ext", "ext/interrupt3.py"] =
    .ok { interactive := true, extensions := [some "ext/interrupt3.py"] } := by
  have hshell := Part.ofArgs_spelling (show "-i".startsWith "-" = true by simp)
    (show Flag.ofSpelling? "-i" = some .interactive by decide)
  have hpath := Part.ofArgs_plain (show "ext/interrupt3.py".startsWith "-" = false by simp)
  simp only [Settings.ofArgs, hshell, Part.ofArgs_ext, hpath]
  rfl

end Command

/-! ## Commands -/

namespace Command

variable [Listener L] {w : Surroundings L} {args : List String} {s : Settings} {hooks : Hooks L}

/-- What a command does that opens the shell on a text. -/
theorem run_eq_session {bytes : List UInt8} (understood : Settings.ofArgs args = .ok s)
    (loads : loadAll w #[] s.extensions = .ok hooks) (interactive : s.interactive = true)
    (given : w.input = .terminal bytes ∨ w.input = .piped bytes) (fuel : Nat) :
    run fuel w args = (Shell.greet s.verbose hooks).session fuel
      (Text.Feed.ofBytes bytes).refusal (Text.Feed.ofBytes bytes).lines := by
  simp only [run, understood, loads, interactive, if_true, interact]
  rcases given with hinput | hinput <;> rw [hinput]

/-- A command with a program ends with a status whenever the run of the program ends and nobody
quits it, also when it is interrupted; then it says so, and the status is not zero. A command that
opens the shell on a text, and whose entries have all ended, ends with a status exactly when none of
them was interrupted and nobody quit one: an interrupt of any entry gets out of the command. Whoever
quits gets out in either case. -/
theorem run_contains (understood : Settings.ofArgs args = .ok s)
    (loads : loadAll w #[] s.extensions = .ok hooks) (fuel : Nat) :
    (∀ text name, s.interactive = false → s.Reads w text name →
      let v := Interp.run fuel
        ({ source := text, file := Text.PathName.ofSource w.directory name, hooks } : Interp L)
        Tape.fresh
      v.Settled →
        (v.quitting? = none → ∃ code, (run fuel w args).ending = .status code ∧
          ∀ word, v.interruption? = some word → code ≠ 0 ∧
            (run fuel w args).console.err = v.state.reported ++ "Interrupted\n") ∧
        ∀ e, v.quitting? = some e → (run fuel w args).ending = .escaped e) ∧
    ∀ bytes, s.interactive = true → (w.input = .terminal bytes ∨ w.input = .piped bytes) →
      (Text.Feed.ofBytes bytes).refusal = none →
      let vs := (Shell.greet s.verbose hooks).verdicts fuel (Text.Feed.ofBytes bytes).lines
      ((∀ v ∈ vs, v.Settled) → ((∃ code, (run fuel w args).ending = .status code) ↔
        ∀ v ∈ vs, v.interruption? = none ∧ v.quitting? = none)) ∧
      (∀ word, (run fuel w args).ending = .escaped (.interrupt word) ↔
        ∃ v ∈ vs, v.interruption? = some word) ∧
      ∀ kind word, (run fuel w args).ending = .escaped (.quit kind word) ↔
        ∃ v ∈ vs, v.quitting? = some (.quit kind word) := by
  constructor
  · intro text name batch reads v hsettled
    have hreports : s.Reports v (run fuel w args) := by
      rw [run_eq_execute understood batch loads reads]
      exact execute_reports _ s fuel
    generalize v = v at hsettled hreports ⊢
    generalize run fuel w args = transcript at hreports ⊢
    cases hreports with
    | finished | unparsed | exited | faulted =>
      exact ⟨fun _ => ⟨_, rfl, fun word hword => by cases hword⟩, fun e he => by cases he⟩
    | interrupted =>
      exact ⟨fun _ => ⟨1, rfl, fun word hword => ⟨by decide, rfl⟩⟩, fun e he => by cases he⟩
    | quitted =>
      refine ⟨fun hnone => (by cases hnone), fun e he => ?_⟩
      cases he
      rfl
    | unfinished => exact hsettled.elim
  · intro bytes interactive given text vs
    have hending : (run fuel w args).ending = Shell.parting vs := by
      rw [run_eq_session understood loads interactive given, text]
      exact Shell.session_ending _ fuel _
    rw [hending]
    exact ⟨Shell.parting_eq_status_iff, fun word => Shell.parting_eq_interrupt_iff,
      fun kind word => Shell.parting_eq_quit_iff⟩

/-- The program `+++`, interrupted at its third instruction, as an argument and in the shell. -/
theorem run_contains_interrupt :
    (∃ code, (run 3 interrupting ["--ext", "ext/interrupt3.py", "--source", "+++"]).ending =
        .status code ∧ code ≠ 0 ∧
      (run 3 interrupting ["--ext", "ext/interrupt3.py", "--source", "+++"]).console.err =
        "Interrupted\n") ∧
    (run 3 interrupting ["-i", "--ext", "ext/interrupt3.py"]).ending =
      .escaped (.interrupt "") := by
  constructor
  · have hpath := Part.ofArgs_plain (show "ext/interrupt3.py".startsWith "-" = false by simp)
    have htext := Part.ofArgs_plain (show "+++".startsWith "-" = false by simp)
    let s : Settings :=
      { program := some "+++", source := true, extensions := [some "ext/interrupt3.py"] }
    have understood :
        Settings.ofArgs ["--ext", "ext/interrupt3.py", "--source", "+++"] = .ok s := by
      simp only [Settings.ofArgs, Part.ofArgs_ext, hpath, Part.ofArgs_source, htext]
      rfl
    obtain ⟨u, hrun, -, hreports⟩ := Interp.run_interrupted
      (Text.PathName.ofSource interrupting.directory "<string>")
    have hcontains := (run_contains understood (interrupting_loads _) 3).1 "+++" "<string>" rfl
      (.argument rfl rfl)
    simp only [hrun] at hcontains
    obtain ⟨code, hcode, hword⟩ := (hcontains trivial).1 rfl
    obtain ⟨hne, herr⟩ := hword "" rfl
    have hreported : u.reported = "" := by
      rw [Interp.reported, hreports]
      rfl
    refine ⟨code, hcode, hne, herr.trans ?_⟩
    rw [Verdict.state, hreported, String.empty_append]
  · obtain ⟨u, hrun, -⟩ := Interp.run_interrupted Shell.file
    obtain ⟨-, hinterrupt, -⟩ := (run_contains ofArgs_shell (interrupting_loads _) 3).2 _ rfl
      (.inr rfl) (by rw [interrupting_feed])
    refine (hinterrupt "").2 ⟨.stopped ⟨.interrupt "", u⟩, ?_, rfl⟩
    rw [interrupting_feed, ← hrun]
    exact Shell.mem_verdicts_of_entry ⟨rfl, by decide, by decide, by decide⟩

/-- The line `+++` is interrupted in the shell at its third instruction. No status comes of it, and
the interrupt is not reported. -/
theorem interrupt_escapes_shell :
    ∃ enough, ∀ fuel, enough ≤ fuel →
      run fuel interrupting ["-i", "--ext", "ext/interrupt3.py"] =
        ⟨⟨Shell.greeting ++ ">>> ", ""⟩, .escaped (.interrupt "")⟩ := by
  obtain ⟨u, hrun, hsink, hreports⟩ := Interp.run_interrupted Shell.file
  refine ⟨3, fun fuel hle => ?_⟩
  have hstable := Interp.run_stable (by rw [hrun]; trivial) (fuel - 3)
  rw [Nat.add_sub_of_le hle, hrun] at hstable
  rw [run_eq_session ofArgs_shell (interrupting_loads _) rfl (.inr rfl), interrupting_feed,
    Shell.session_of_interrupted ⟨rfl, by decide, by decide, by decide⟩ hstable]
  have hout : u.sink.text = "" := by rw [hsink]
  have hreported : u.reported = "" := by
    rw [Interp.reported, hreports]
    rfl
  have hprompt : ∀ hooks : Hooks Observer, (Shell.greet false hooks).prompt.console =
      ⟨Shell.greeting ++ ">>> ", ""⟩ := by
    simp [Shell.greet, Shell.prompt, Shell.print, Console.print]
  simp only [Shell.after, Console.absorb_eq, hprompt, hout, hreported, String.append_empty]

end Command

end TapeLang
