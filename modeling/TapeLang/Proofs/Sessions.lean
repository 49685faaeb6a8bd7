import TapeLang.Proofs.Blocks
import TapeLang.Proofs.Budget

/-!
# Entries do not know of each other

Without listeners nothing outlives an entry: the shell at the first prompt is always the same, but
for what it has written so far, and it never looks at that. So whatever was entered before, what is
written from a first prompt on is the same. A session whose runs end reads every line up to the
first one that leaves it, and ends with status zero.
-/

namespace TapeLang

namespace Console

/-- One text after the other, for both. -/
def append (c d : Console) : Console := ⟨c.out ++ d.out, c.err ++ d.err⟩

variable {L : Type}

theorem append_empty (c : Console) : c.append {} = c := by
  simp [append]

theorem append_print (c d : Console) (text : String) :
    c.append (d.print text) = (c.append d).print text := by
  simp [append, print, String.append_assoc]

theorem append_complain (c d : Console) (line : String) :
    c.append (d.complain line) = (c.append d).complain line := by
  simp [append, complain, String.append_assoc]

theorem append_absorb (c d : Console) (i : Interp L) :
    c.append (d.absorb i) = (c.append d).absorb i := by
  simp [append, absorb_eq, String.append_assoc]

end Console

/-- What was written before stands in front of a transcript. -/
def Transcript.onto (c : Console) (t : Transcript) : Transcript := ⟨c.append t.console, t.ending⟩

namespace Shell

variable {L : Type}

/-! ## What was written before -/

/-- The shell, with a text that was written before. -/
def onto (c : Console) (s : Shell L) : Shell L := { s with console := c.append s.console }

/-- What a line leads to, with a text that was written before. -/
def Turn.onto (c : Console) : Turn L → Turn L
  | .stay s => .stay (s.onto c)
  | .leave t => .leave (t.onto c)

variable {c : Console} {s : Shell L}

theorem print_onto (c : Console) (s : Shell L) (text : String) :
    (s.onto c).print text = (s.print text).onto c := by
  simp only [print, onto, Console.append_print]

theorem prompt_onto (c : Console) (s : Shell L) : (s.onto c).prompt = s.prompt.onto c := by
  simp only [prompt, print, onto, Console.append_print]
  rfl

theorem after_onto (c : Console) (s : Shell L) (i : Interp L) :
    (s.onto c).after i = (s.after i).onto c := by
  simp only [after, onto, Console.append_absorb]

theorem runDry_onto (c : Console) (s : Shell L) (refusal : Option Text.Utf8.DecodeError) :
    (s.onto c).runDry refusal = (s.runDry refusal).onto c := by
  cases refusal with
  | none =>
    rw [runDry, runDry, close, close, print_onto]
    rfl
  | some e => rfl

variable [Listener L]

/-- Running an entry only adds to what was written before. -/
theorem enter_onto (c : Console) (s : Shell L) (fuel : Nat) (text : String)
    {refused refused' : ParseError → Shell L} (hr : ∀ e, refused' e = (refused e).onto c) :
    (s.onto c).enter fuel text refused' = (s.enter fuel text refused).onto c := by
  have hhooks : (s.onto c).hooks = s.hooks := rfl
  rw [enter, enter, hhooks]
  generalize Interp.run fuel { source := text, file, hooks := s.hooks } Tape.fresh = v
  cases v with
  | unparsed e i => exact congrArg Turn.stay (hr e)
  | finished i => exact congrArg Turn.stay (after_onto c s i)
  | unfinished d =>
    simp only [after_onto]
    rfl
  | stopped halt =>
    obtain ⟨stop, i⟩ := halt
    cases stop with
    | fault f =>
      simp only [after_onto]
      simp only [onto, Turn.onto, Console.append_complain]
    | exit | failure | interrupt | quit =>
      simp only [after_onto]
      rfl

/-- What a line leads to does not depend on what was written before. -/
theorem read_onto (c : Console) (s : Shell L) (fuel : Nat) (line : String) :
    (s.onto c).read fuel line = (s.read fuel line).onto c := by
  have hblock : (s.onto c).block = s.block := rfl
  rw [read, read, hblock]
  split
  · split
    · rfl
    · split
      · rw [print_onto]
        rfl
      · split
        · rfl
        · exact enter_onto c s fuel line fun _ => rfl
  · split
    · refine enter_onto c { s with block := #[] } fuel _ fun e => ?_
      simp only [onto, Console.append_complain]
    · rfl

/-- A session does not look at what was written before. -/
theorem session_onto (c : Console) (s : Shell L) (fuel : Nat)
    (refusal : Option Text.Utf8.DecodeError) (lines : List String) :
    (s.onto c).session fuel refusal lines = (s.session fuel refusal lines).onto c := by
  induction lines generalizing s with
  | nil => rw [session, session, prompt_onto, runDry_onto]
  | cons line rest ih =>
    rw [session, session, prompt_onto, read_onto]
    cases s.prompt.read fuel line with
    | stay t => exact ih t
    | leave t => rfl

/-- The prompt is all that a session knows of the shell. -/
theorem session_congr {s t : Shell L} (h : s.prompt = t.prompt) (fuel : Nat)
    (refusal : Option Text.Utf8.DecodeError) (lines : List String) :
    s.session fuel refusal lines = t.session fuel refusal lines := by
  cases lines <;> simp only [session, h]

/-! ## Without listeners -/

/-- Nobody listens, and diagnostics are as they were asked for. -/
structure Quiet (verbose : Bool) (s : Shell L) : Prop where
  hooks : s.hooks = #[]
  verbose : s.verbose = verbose

section Quiet

variable {verbose : Bool} {s t : Shell L} {fuel : Nat} {line text : String} {lines : List String}

/-- A run without listeners leaves none behind, and only a fault stops it. -/
theorem Quiet.hooks_run (hs : s.Quiet verbose) (fuel : Nat) (text : String) :
    (Interp.run fuel { source := text, file, hooks := s.hooks } Tape.fresh).state.hooks = #[] ∧
      ∀ stop, (Interp.run fuel { source := text, file, hooks := s.hooks } Tape.fresh).stop? =
        some stop → ∃ f, stop = .fault f :=
  have ⟨hhooks, hfault⟩ := Interp.run_of_no_hooks
    (s := ({ source := text, file, hooks := s.hooks } : Interp L)) hs.hooks fuel Tape.fresh
  ⟨hhooks, hfault Sink.open_default.ordinary⟩

theorem Quiet.enter (hs : s.Quiet verbose) {refused : ParseError → Shell L}
    (h : s.enter fuel text refused = .stay t) (hr : ∀ e, (refused e).Quiet verbose) :
    t.Quiet verbose := by
  obtain ⟨hhooks, hfault⟩ := hs.hooks_run fuel text
  rw [Shell.enter] at h
  generalize Interp.run fuel { source := text, file, hooks := s.hooks } Tape.fresh = v at h hhooks
  cases v with
  | unparsed e i =>
    cases h
    exact hr e
  | finished i =>
    cases h
    exact ⟨hhooks, hs.verbose⟩
  | unfinished c => cases h
  | stopped halt =>
    obtain ⟨stop, i⟩ := halt
    cases stop with
    | fault f =>
      cases h
      exact ⟨hhooks, hs.verbose⟩
    | exit | failure | interrupt | quit => cases h

/-- It stays quiet from line to line. -/
theorem Quiet.read (hs : s.Quiet verbose) (h : s.read fuel line = .stay t) : t.Quiet verbose := by
  rw [Shell.read] at h
  split at h
  · split at h
    · cases h
    · split at h
      · cases h
        exact ⟨hs.hooks, hs.verbose⟩
      · split at h
        · cases h
          exact hs
        · exact hs.enter h fun _ => ⟨hs.hooks, hs.verbose⟩
  · split at h
    · exact Quiet.enter (s := { s with block := #[] }) ⟨hs.hooks, hs.verbose⟩ h
        fun _ => ⟨hs.hooks, hs.verbose⟩
    · cases h
      exact ⟨hs.hooks, hs.verbose⟩

theorem Quiet.readLines (hs : s.Quiet verbose) (h : s.readLines fuel lines = .stay t) :
    t.Quiet verbose := by
  induction lines generalizing s with
  | nil =>
    cases h
    exact hs
  | cons line rest ih =>
    have hprompt : s.prompt.Quiet verbose := ⟨hs.hooks, hs.verbose⟩
    rw [Shell.readLines] at h
    cases hread : s.prompt.read fuel line with
    | stay u =>
      rw [hread] at h
      exact ih (hprompt.read hread) h
    | leave u =>
      rw [hread] at h
      cases h

/-- What the shell has written when the prompt is about to be shown on a line of its own. -/
def written (s : Shell L) : Console := s.console.print (if s.wrote then "\n" else "")

/-- At a first prompt the shell is the same as when it was started, but for what it has written. -/
theorem Quiet.session_eq (hs : s.Quiet verbose) (hb : s.block = #[])
    (fuel : Nat) (refusal : Option Text.Utf8.DecodeError) (lines : List String) :
    s.session fuel refusal lines =
      (({ verbose } : Shell L).session fuel refusal lines).onto s.written := by
  rw [← session_onto]
  refine session_congr ?_ fuel refusal lines
  obtain ⟨v, hooks, block, wrote, console⟩ := s
  obtain ⟨rfl, rfl⟩ := hs
  cases hb
  simp [prompt, print, onto, written, Console.append_empty, Console.print, String.append_assoc]

end Quiet

/-! ## Which lines are read -/

/-- What a line is when these lines are in an open block: the word that leaves, or the text that it
completes, if any, and the lines that are in a block after it. -/
def outcome (block : List String) (line : String) : Option (Option String × List String) :=
  let stripped := Text.strip line.toList
  if block.isEmpty then
    if stripped = "exit".toList then none
    else if stripped = "help".toList ∨ stripped = [] then some (none, [])
    else
      match Program.parse line file with
      | .ok _ => some (some line, [])
      | .error _ => some (none, [line])
  else if stripped = [] then some (some ("\n".intercalate block), [])
  else some (none, block ++ [line])

/-- The texts that are run, up to the line that leaves. -/
def entries (block : List String) : List String → List String
  | [] => []
  | line :: rest =>
    match outcome block line with
    | none => []
    | some (entry, block) => entry.toList ++ entries block rest

/-- The lines up to the one that leaves, all lines if there is none. -/
def upToExit (block : List String) : List String → List String
  | [] => []
  | line :: rest =>
    match outcome block line with
    | none => [line]
    | some (_, block) => line :: upToExit block rest

/-- How many lines a session reads. -/
def linesRead (fuel : Nat) (s : Shell L) : List String → Nat
  | [] => 0
  | line :: rest =>
    match s.prompt.read fuel line with
    | .stay s => s.linesRead fuel rest + 1
    | .leave _ => 1

section Ends

variable {verbose : Bool} {s : Shell L} {fuel : Nat} {line text : String} {block : List String}

/-- An entry whose run ends leads back to the shell. -/
theorem Quiet.exists_enter (hs : s.Quiet verbose)
    (hv : (Interp.run fuel ({ source := text, file } : Interp L) Tape.fresh).Settled)
    {refused : ParseError → Shell L}
    (hr : ∀ e, Program.parse text file = .error e → (refused e).block = s.block) :
    ∃ t, s.enter fuel text refused = .stay t ∧ t.block = s.block := by
  cases hp : Program.parse text file with
  | error e => exact ⟨_, enter_of_error hp refused, hr e hp⟩
  | ok p =>
    have hparse : Interp.parse ({ source := text, file } : Interp L) = .ok p := hp
    have hfault := (hs.hooks_run fuel text).2
    rw [Shell.enter]
    rw [hs.hooks] at hfault ⊢
    generalize hrun : Interp.run fuel ({ source := text, file } : Interp L) Tape.fresh = v
      at hv hfault ⊢
    cases v with
    | unparsed e i => exact absurd hrun (Interp.run_ne_unparsed hparse _ _ _ _)
    | finished i => exact ⟨_, rfl, rfl⟩
    | unfinished c => exact hv.elim
    | stopped halt =>
      obtain ⟨stop, i⟩ := halt
      obtain ⟨f, rfl⟩ := hfault stop rfl
      exact ⟨_, rfl, rfl⟩

/-- The word that leaves does so. -/
theorem read_of_outcome_none (hb : s.block = block.toArray) (h : outcome block line = none)
    (fuel : Nat) : s.read fuel line = .leave (s.console.exit 0) := by
  have hempty : s.block.isEmpty = block.isEmpty := by simp [hb]
  simp only [outcome] at h
  split at h
  · next hblock =>
    split at h
    · next hexit => rw [Shell.read, hempty, if_pos hblock, if_pos hexit]
    · split at h
      · cases h
      · split at h <;> cases h
  · split at h <;> cases h

/-- Any other line leads back to the shell, if the run that it asks for ends. -/
theorem Quiet.read_of_outcome (hs : s.Quiet verbose) (hb : s.block = block.toArray)
    {entry : Option String} {next : List String} (h : outcome block line = some (entry, next))
    (hv : ∀ text ∈ entry,
      (Interp.run fuel ({ source := text, file } : Interp L) Tape.fresh).Settled) :
    ∃ t, s.read fuel line = .stay t ∧ t.block = next.toArray := by
  have hempty : s.block.isEmpty = block.isEmpty := by simp [hb]
  simp only [outcome] at h
  split at h
  · next hblock =>
    obtain rfl : block = [] := List.isEmpty_iff.1 hblock
    have hempty : s.block.isEmpty = true := hempty
    split at h
    · cases h
    · next hexit =>
      split at h
      · next hquiet =>
        cases h
        rw [Shell.read, if_pos hempty, if_neg hexit]
        rcases hquiet with hhelp | hblank
        · exact ⟨_, if_pos hhelp, hb⟩
        · rw [hblank]
          exact ⟨s, rfl, hb⟩
      · next hentry =>
        obtain ⟨hhelp, hblank⟩ := not_or.1 hentry
        have hentry : s.Entry line := ⟨hempty, hblank, hexit, hhelp⟩
        split at h
        · next p hp =>
          cases h
          obtain ⟨t, ht, hblock⟩ := hs.exists_enter (hv line rfl) fun e he => by
            cases hp.symm.trans he
          exact ⟨t, (hentry.read_eq fuel).trans ht, hblock.trans hb⟩
        · next e he =>
          cases h
          exact ⟨_, hentry.read_of_error he fuel, rfl⟩
  · next hblock =>
    have hopen : s.block.isEmpty = false := by simpa [hempty] using hblock
    split at h
    · next hblank =>
      cases h
      have hclosed : ({ s with block := #[] } : Shell L).Quiet verbose := ⟨hs.hooks, hs.verbose⟩
      rw [read_blank hopen hblank, hb]
      exact hclosed.exists_enter (hv _ rfl) fun _ _ => rfl
    · next hmore =>
      cases h
      exact ⟨_, read_more hopen hmore, by simp [hb]⟩

/-- When the runs that the lines ask for end, the session reads all lines up to the one that leaves,
and ends with status zero. What stands behind that line makes no difference. -/
theorem Quiet.session_ends (hs : s.Quiet verbose) (hb : s.block = block.toArray)
    {lines : List String}
    (hv : ∀ text ∈ entries block lines,
      (Interp.run fuel ({ source := text, file } : Interp L) Tape.fresh).Settled) :
    (s.session fuel none lines).ending = .status 0 ∧
      s.linesRead fuel lines = (upToExit block lines).length ∧
      s.session fuel none (upToExit block lines) = s.session fuel none lines := by
  induction lines generalizing s block with
  | nil => exact ⟨rfl, rfl, rfl⟩
  | cons line rest ih =>
    have hprompt : s.prompt.Quiet verbose := ⟨hs.hooks, hs.verbose⟩
    rw [session, linesRead, upToExit]
    rw [entries] at hv
    cases ho : outcome block line with
    | none =>
      have hread := read_of_outcome_none (s := s.prompt) hb ho fuel
      rw [session, hread]
      exact ⟨rfl, rfl, rfl⟩
    | some step =>
      obtain ⟨entry, next⟩ := step
      rw [ho] at hv
      simp only [List.forall_mem_append] at hv
      obtain ⟨t, ht, hblock⟩ := hprompt.read_of_outcome hb ho fun text h =>
        hv.1 text (by simpa using h)
      obtain ⟨hending, hread, hbehind⟩ := ih (hprompt.read ht) hblock hv.2
      simp only [session, ht]
      exact ⟨hending, congrArg (· + 1) hread, hbehind⟩

end Ends

/-- Some number of steps is enough for all of these runs, and so is every greater one. -/
theorem exists_enough {texts : List String}
    (h : ∀ text ∈ texts, ∃ v, (({ source := text, file } : Interp L)).EndsIn Tape.fresh v) :
    ∃ enough, ∀ fuel, enough ≤ fuel → ∀ text ∈ texts,
      (Interp.run fuel ({ source := text, file } : Interp L) Tape.fresh).Settled := by
  induction texts with
  | nil => exact ⟨0, fun _ _ _ hmem => absurd hmem List.not_mem_nil⟩
  | cons text rest ih =>
    obtain ⟨⟨v, hv, n, rfl⟩, hrest⟩ := List.forall_mem_cons.1 h
    obtain ⟨m, hm⟩ := ih hrest
    refine ⟨max n m, fun fuel hfuel => List.forall_mem_cons.2 ⟨?_, hm fuel (by omega)⟩⟩
    obtain ⟨k, rfl⟩ := Nat.exists_eq_add_of_le (show n ≤ fuel by omega)
    rwa [Interp.run_stable hv]

/-- Entries are isolated from one another when no extension is loaded. Whatever lines have led two
sessions to a first prompt, from that prompt on they write the same and end the same, for any
further lines. And when the runs of all entries end, a session ends with status zero and has read
exactly the lines up to the first one that leaves, whatever its entries came to; the lines behind
that one make no difference. -/
theorem sessions_isolated (verbose : Bool) :
    let start : Shell L := greet verbose #[]
    (∀ (as bs rest : List String) (fuel : Nat) (refusal : Option Text.Utf8.DecodeError)
      (s t : Shell L), start.readLines fuel as = .stay s → start.readLines fuel bs = .stay t →
        s.block = #[] → t.block = #[] → ∃ later : Transcript,
          start.session fuel refusal (as ++ rest) = later.onto s.written ∧
          start.session fuel refusal (bs ++ rest) = later.onto t.written) ∧
    ∀ lines : List String,
      (∀ text ∈ entries [] lines,
        ∃ v, ({ source := text, file } : Interp L).EndsIn Tape.fresh v) →
      ∃ enough, ∀ fuel, enough ≤ fuel → (start.session fuel none lines).ending = .status 0 ∧
        start.linesRead fuel lines = (upToExit [] lines).length ∧
        start.session fuel none (upToExit [] lines) = start.session fuel none lines := by
  intro start
  have hstart : start.Quiet verbose := ⟨rfl, rfl⟩
  constructor
  · intro as bs rest fuel refusal s t has hbs hs ht
    refine ⟨({ verbose } : Shell L).session fuel refusal rest, ?_, ?_⟩
    · rw [session_append, has]
      exact (hstart.readLines has).session_eq hs fuel refusal rest
    · rw [session_append, hbs]
      exact (hstart.readLines hbs).session_eq ht fuel refusal rest
  · intro lines hends
    obtain ⟨enough, henough⟩ := exists_enough hends
    exact ⟨enough, fun fuel hfuel => hstart.session_ends rfl (henough fuel hfuel)⟩

/-- A failed block and a request for help lead to the same prompt. Of the six lines of the second
session the last one is not read. -/
theorem sessions_isolated_after_failure :
    let start : Shell := greet false #[]
    let lines := ["+++", "+[", "exit", "", "exit", "+"]
    (∃ (s t : Shell) (later : Transcript), start.readLines 9 ["+[", "exit", ""] = .stay s ∧
      start.readLines 9 ["help"] = .stay t ∧ s.block = #[] ∧ t.block = #[] ∧
      start.session 9 none (["+[", "exit", ""] ++ ["+"]) = later.onto s.written ∧
      start.session 9 none (["help"] ++ ["+"]) = later.onto t.written) ∧
    (∀ text ∈ entries [] lines,
      ∃ v, ({ source := text, file } : Interp Observer).EndsIn Tape.fresh v) ∧
    ∃ enough, ∀ fuel, enough ≤ fuel → start.linesRead fuel lines = 5 := by
  intro start lines
  obtain ⟨e, he⟩ := Text.exists_error_of_opened "+[" file (by decide)
  obtain ⟨p, hp⟩ := Text.exists_parse "+++" file (by decide) (by decide)
  obtain ⟨e', he'⟩ := Text.exists_error_of_opened "+[\nexit" file (by decide)
  have hentries : entries [] lines = ["+++", "+[\nexit"] := by
    simp +decide [lines, entries, outcome, he, hp]
  have hlines : upToExit [] lines = ["+++", "+[", "exit", "", "exit"] := by
    simp +decide [lines, upToExit, outcome, he, hp]
  have hends : ∀ text ∈ entries [] lines,
      ∃ v, ({ source := text, file } : Interp Observer).EndsIn Tape.fresh v := by
    rw [hentries]
    refine List.forall_mem_cons.2 ⟨?_, List.forall_mem_singleton.2 ?_⟩
    · obtain ⟨t, ht, -⟩ := Interp.exists_endsIn_straight (L := Observer)
        (s := { source := "+++", file }) (n := 3) rfl rfl Tape.fresh
      exact ⟨_, ht⟩
    · have hparse : Interp.parse ({ source := "+[\nexit", file } : Interp Observer) = .error e' :=
        he'
      refine ⟨.unparsed e' { source := "+[\nexit", file }, trivial, 0, ?_⟩
      rw [Interp.run, hparse]
  have hfailed : ∃ s, start.readLines 9 (["+[", "exit"] ++ [""]) = .stay s ∧ s.block = #[] := by
    have hcollect := readLines_of_opened (s := start) rfl
      (show (Text.brackets "+[".toList).opened ≠ [] by decide)
      (show ∀ line ∈ ["exit"], Text.strip line.toList ≠ [] by decide) 9
    rw [readLines_append, hcollect]
    simp only [readLines_singleton]
    rw [read_blank rfl (by decide)]
    exact ⟨_, enter_of_error he' _, rfl⟩
  have hhelped : ∃ t, start.readLines 9 ["help"] = .stay t ∧ t.block = #[] := ⟨_, rfl, rfl⟩
  obtain ⟨s, hs, hsblock⟩ := hfailed
  obtain ⟨t, ht, htblock⟩ := hhelped
  obtain ⟨hsame, hread⟩ := sessions_isolated (L := Observer) false
  obtain ⟨later, hlater, hlater'⟩ := hsame _ _ ["+"] 9 none s t hs ht hsblock htblock
  obtain ⟨enough, henough⟩ := hread lines hends
  refine ⟨⟨s, t, later, hs, ht, hsblock, htblock, hlater, hlater'⟩, hends, enough, ?_⟩
  intro fuel hfuel
  rw [(henough fuel hfuel).2.1, hlines]
  rfl

end Shell

end TapeLang
