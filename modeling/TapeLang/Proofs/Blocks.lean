import Mathlib.Data.List.TakeWhile
import TapeLang.Proofs.Continuation
import TapeLang.Proofs.Reporting

/-!
# Blocks of lines

The lines of a block are one program. Until a blank line closes the block nothing is run and nobody
is told of anything, whatever the lines say; then the lines are joined and run once, on a zeroed
tape. What the shell writes for it is what the run writes, and what it says of a refusal or a fault.
After that it is at the first prompt again, unless a listener ends it. A line that is a program by
itself is such a block without ever opening one.
-/

namespace TapeLang

/-! ## Lines with a bracket left open -/

namespace Brackets

/-- Without an opening bracket nothing is ever open. -/
theorem opened_eq_nil {α : Type} {kind : α → Token.Kind} {as : List α} {m : Brackets α}
    (h : ∀ a ∈ as, kind a ≠ .opening) (hm : m.opened = []) : (m.readAll kind as).opened = [] := by
  induction as generalizing m with
  | nil => exact hm
  | cons a as ih =>
    have ho := h a List.mem_cons_self
    have hread : m.read kind a = m := by
      by_cases hc : kind a = .closing
      · exact read_stray hc hm
      · exact read_pass ho hc
    rw [readAll_cons, hread]
    exact ih (fun b hb => h b (List.mem_cons_of_mem a hb)) hm

end Brackets

namespace Text

/-- A text with a bracket left open holds an opening bracket. -/
theorem mem_of_opened {cs : List Char} (h : (brackets cs).opened ≠ []) : '[' ∈ cs := by
  by_contra hno
  refine h (Brackets.opened_eq_nil (fun a ha hk => hno ?_) rfl)
  have hmem := (List.mem_zipIdx' ha).2
  rw [← (bracket_of_kind a).1 hk, hmem]
  exact List.getElem_mem _

/-- A text with a bracket left open is no program. -/
theorem exists_error_of_opened (text file : String)
    (h : (brackets text.toList).opened ≠ []) : ∃ e, Program.parse text file = .error e := by
  cases hp : Program.parse text file with
  | error e => exact ⟨e, rfl⟩
  | ok p =>
    obtain ⟨-, hns, -, -⟩ := Program.ofSource_eq_ok_iff.1 hp
    have hopen := (Source.brackets_of_spells hns).1
    rw [← brackets_ofText text file, Brackets.map, hopen] at h
    exact absurd rfl h

/-- Characters that are not blank are not stripped. -/
theorem mem_strip {cs : List Char} {c : Char} (hc : c ∈ cs) (hb : isBlank c = false) :
    c ∈ strip cs := by
  have hkeep : ∀ {ds : List Char}, c ∈ ds → c ∈ ds.dropWhile isBlank := by
    intro ds hd
    rcases List.mem_append.1 (List.takeWhile_append_dropWhile (p := isBlank) (l := ds) ▸ hd) with
      htake | hdrop
    · rw [List.mem_takeWhile_imp htake] at hb
      cases hb
    · exact hdrop
  rw [strip, List.mem_reverse]
  exact hkeep (List.mem_reverse.2 (hkeep hc))

end Text

/-- A run never stops with a bare failure. -/
theorem Interp.run_ne_failure {L : Type} [Listener L] (s t : Interp L) (tape : Tape) (fuel : Nat)
    (f : Failure) : s.run fuel tape ≠ .stopped ⟨.failure f, t⟩ := by
  intro hrun
  cases hp : s.parse with
  | error e =>
    rw [run, hp] at hrun
    cases hrun
  | ok p =>
    obtain ⟨log, htells⟩ := exists_tells hp tape fuel
    rw [hrun] at htells
    rcases htells.kinds trivial with ⟨u, hu⟩ | ⟨stop, u, hu, hno⟩
    · cases hu
    · cases hu
      exact hno f rfl

namespace Shell

variable {L : Type}

/-- A line with a bracket left open is neither blank nor one of the two words. -/
theorem entry_of_opened {s : Shell L} (hs : s.block = #[]) {line : String}
    (h : (Text.brackets line.toList).opened ≠ []) : s.Entry line := by
  have hmem : '[' ∈ Text.strip line.toList := Text.mem_strip (Text.mem_of_opened h) (by decide)
  have hne : ∀ cs : List Char, '[' ∉ cs → Text.strip line.toList ≠ cs := by
    rintro cs hcs rfl
    exact hcs hmem
  exact ⟨by rw [hs]; rfl, hne [] (by decide), hne _ (by decide), hne _ (by decide)⟩

variable [Listener L]

/-! ## Lines one after the other -/

/-- Read lines one after the other, each at a prompt, unless the shell is left before. -/
def readLines (fuel : Nat) (s : Shell L) : List String → Turn L
  | [] => .stay s
  | line :: rest =>
    match s.prompt.read fuel line with
    | .stay s => s.readLines fuel rest
    | .leave t => .leave t

/-- A session goes on where its first lines have led. -/
theorem session_append (fuel : Nat) (refusal : Option Text.Utf8.DecodeError) (s : Shell L)
    (as bs : List String) :
    s.session fuel refusal (as ++ bs) =
      match s.readLines fuel as with
      | .stay t => t.session fuel refusal bs
      | .leave t => t := by
  induction as generalizing s with
  | nil => rfl
  | cons line as ih =>
    rw [List.cons_append, session, readLines]
    cases s.prompt.read fuel line with
    | stay t => exact ih t
    | leave t => rfl

theorem readLines_append (fuel : Nat) (s : Shell L) (as bs : List String) :
    s.readLines fuel (as ++ bs) =
      match s.readLines fuel as with
      | .stay t => t.readLines fuel bs
      | .leave t => .leave t := by
  induction as generalizing s with
  | nil => rfl
  | cons line as ih =>
    rw [List.cons_append, readLines, readLines]
    cases s.prompt.read fuel line with
    | stay t => exact ih t
    | leave t => rfl

theorem readLines_singleton (fuel : Nat) (s : Shell L) (line : String) :
    s.readLines fuel [line] = s.prompt.read fuel line := by
  simp only [readLines]
  cases s.prompt.read fuel line <;> rfl

variable {s : Shell L} {fuel : Nat} {line text : String}

/-- While a block is open, every line that is not blank goes into it. -/
theorem read_more (hs : s.block.isEmpty = false) (hline : Text.strip line.toList ≠ []) :
    s.read fuel line = .stay { s with block := s.block.push line } := by
  have hblank : (Text.strip line.toList).isEmpty = false := by simpa using hline
  rw [read, hs, if_neg Bool.false_ne_true, hblank, if_neg Bool.false_ne_true]

/-- A blank line runs what an open block holds. -/
theorem read_blank (hs : s.block.isEmpty = false) (hline : Text.strip line.toList = []) :
    s.read fuel line =
      ({ s with block := #[] } : Shell L).enter fuel ("\n".intercalate s.block.toList) fun e =>
        { s with
          block := #[]
          console := s.console.complain s!"ParseError: {e.message}" } := by
  rw [read, hs, if_neg Bool.false_ne_true, hline]
  rfl

/-- The shell has shown its prompts and put these lines into a block, and has done no more. -/
def collecting (s : Shell L) (lines : List String) : Shell L :=
  { s.prompt with
    block := lines.toArray
    console := s.prompt.console.print (String.join (lines.tail.map fun _ => "..> ")) }

omit [Listener L] in
/-- The prompt of an open block. -/
theorem prompt_collecting (s : Shell L) (first : String) (before : List String) :
    (s.collecting (first :: before)).prompt =
      { s.collecting (first :: before) with
        console := (s.collecting (first :: before)).console.print "..> " } := rfl

/-- The lines of a block are collected. -/
theorem readLines_collecting (first : String) (before : List String) {more : List String}
    (hmore : ∀ line ∈ more, Text.strip line.toList ≠ []) :
    (s.collecting (first :: before)).readLines fuel more =
      .stay (s.collecting (first :: (before ++ more))) := by
  induction more generalizing before with
  | nil => rw [List.append_nil]; rfl
  | cons line more ih =>
    obtain ⟨hline, hmore⟩ := List.forall_mem_cons.1 hmore
    have hread : (s.collecting (first :: before)).prompt.read fuel line =
        .stay (s.collecting (first :: (before ++ [line]))) := by
      rw [prompt_collecting, read_more rfl hline]
      simp [collecting, Console.print, String.append_assoc]
    rw [readLines, hread]
    simp only
    rw [ih _ hmore, List.append_assoc, List.singleton_append]

/-- A line with a bracket left open and the lines after it that are not blank are collected. -/
theorem readLines_of_opened (hs : s.block = #[]) {first : String} {more : List String}
    (hfirst : (Text.brackets first.toList).opened ≠ [])
    (hmore : ∀ line ∈ more, Text.strip line.toList ≠ []) (fuel : Nat) :
    s.readLines fuel (first :: more) = .stay (s.collecting (first :: more)) := by
  obtain ⟨e, he⟩ := Text.exists_error_of_opened first file hfirst
  have hentry : s.prompt.Entry first := entry_of_opened (s := s.prompt) hs hfirst
  have hcollect : ({ s.prompt with block := #[first] } : Shell L) = s.collecting [first] := by
    simp [collecting, Console.print]
  rw [readLines, hentry.read_of_error he, hcollect]
  exact readLines_collecting first [] hmore

/-! ## Replies -/

/-- The shell is at the first prompt again. It has written these texts, and the prompt stands on a
new line if something was written by the run. -/
structure Returns (s t : Shell L) (hooks : Hooks L) (out err : String) (wrote : Prop)
    [Decidable wrote] : Prop where
  verbose : t.verbose = s.verbose
  hooks : t.hooks = hooks
  block : t.block = #[]
  out : t.console.out = s.console.out ++ out
  err : t.console.err = s.console.err ++ err
  prompt : t.prompt.console.out = t.console.out ++ if wrote then "\n>>> " else ">>> "

/-- The shell has been left, and before that the run has written these texts. -/
structure Leaves (s : Shell L) (t : Transcript) (i : Interp L) (ending : Ending) : Prop where
  out : t.console.out = s.console.out ++ i.sink.text
  err : t.console.err = s.console.err ++ i.reported
  ending : t.ending = ending

/-- What the shell makes of a run: it says why a text is refused, or passes on what the run has
written and tells the fault; an exit, an interrupt, a listener that quits and a run that does not
end leave it. -/
inductive Replies (s : Shell L) : Verdict L → Turn L → Prop where
  | refused {e : ParseError} {i : Interp L} {t : Shell L}
      (back : s.Returns t s.hooks "" ("ParseError: " ++ e.message ++ "\n") False) :
      Replies s (.unparsed e i) (.stay t)
  | finished {i : Interp L} {t : Shell L}
      (back : s.Returns t i.hooks i.sink.text i.reported (0 < i.sink.calls)) :
      Replies s (.finished i) (.stay t)
  | faulted {f : Fault} {i : Interp L} {t : Shell L}
      (back : s.Returns t i.hooks i.sink.text (i.reported ++ i.traceback f s.verbose ++ "\n")
        (0 < i.sink.calls)) :
      Replies s (.stopped ⟨.fault f, i⟩) (.stay t)
  | exited {code : Int} {i : Interp L} {t : Transcript} (left : s.Leaves t i (.status code)) :
      Replies s (.stopped ⟨.exit code, i⟩) (.leave t)
  | interrupted {text : String} {i : Interp L} {t : Transcript}
      (left : s.Leaves t i (.escaped (.interrupt text))) :
      Replies s (.stopped ⟨.interrupt text, i⟩) (.leave t)
  | quitted {kind text : String} {i : Interp L} {t : Transcript}
      (left : s.Leaves t i (.escaped (.quit kind text))) :
      Replies s (.stopped ⟨.quit kind text, i⟩) (.leave t)
  | unfinished {c : Config L} {t : Transcript} (left : s.Leaves t c.state .unfinished) :
      Replies s (.unfinished c) (.leave t)

omit [Listener L] in
/-- The first prompt. -/
theorem prompt_out {t : Shell L} (ht : t.block = #[]) :
    t.prompt.console.out = t.console.out ++ if t.wrote = true then "\n>>> " else ">>> " := by
  cases h : t.wrote <;> simp [prompt, print, Console.print, ht, h]

omit [Listener L] in
/-- After a run that has ended without leaving the shell. -/
theorem returns_after (s : Shell L) (i : Interp L) :
    s.Returns (({ s with block := #[] } : Shell L).after i) i.hooks i.sink.text i.reported
      (0 < i.sink.calls) := by
  refine ⟨rfl, rfl, rfl, ?_, ?_, ?_⟩
  · simp only [after, Console.absorb_eq]
  · simp only [after, Console.absorb_eq]
  · rw [prompt_out rfl]
    simp [after]

/-- An entry is run, and the shell replies. -/
theorem enter_replies (s : Shell L) (hw : s.wrote = false) (fuel : Nat) (text : String)
    (refused : ParseError → Shell L)
    (hr : ∀ e, Program.parse text file = .error e → refused e =
      { s with block := #[], console := s.console.complain s!"ParseError: {e.message}" }) :
    s.Replies (({ source := text, file, hooks := s.hooks } : Interp L).run fuel Tape.fresh)
      (({ s with block := #[] } : Shell L).enter fuel text refused) := by
  cases hp : Program.parse text file with
  | error e =>
    have hparse : Interp.parse { source := text, file, hooks := s.hooks } = .error e := hp
    rw [enter_of_error hp, hr e hp]
    simp only [Interp.run, hparse]
    refine .refused ⟨rfl, rfl, rfl, ?_, ?_, ?_⟩
    · simp [Console.complain]
    · simp only [Console.complain, String.append_assoc]
      rfl
    · rw [prompt_out rfl, hw]
      rfl
  | ok p =>
    have hparse : Interp.parse { source := text, file, hooks := s.hooks } = .ok p := hp
    have hleaves : ∀ (i : Interp L) (ending : Ending),
        s.Leaves ⟨(({ s with block := #[] } : Shell L).after i).console, ending⟩ i ending :=
      fun i ending => ⟨(s.returns_after i).out, (s.returns_after i).err, rfl⟩
    rw [enter]
    generalize hrun : Interp.run fuel { source := text, file, hooks := s.hooks } Tape.fresh = v
    cases v with
    | unparsed e i => exact absurd hrun (Interp.run_ne_unparsed hparse _ _ _ _)
    | finished i => exact .finished (s.returns_after i)
    | unfinished c => exact .unfinished (hleaves c.state .unfinished)
    | stopped halt =>
      obtain ⟨stop, i⟩ := halt
      cases stop with
      | failure f => exact absurd hrun (Interp.run_ne_failure _ _ _ _ _)
      | exit code => exact .exited (hleaves i (.status code))
      | interrupt word => exact .interrupted (hleaves i (.escaped (.interrupt word)))
      | quit kind word => exact .quitted (hleaves i (.escaped (.quit kind word)))
      | fault f =>
        obtain ⟨hverbose, hhooks, hblock, hout, herr, hprompt⟩ := s.returns_after i
        refine .faulted ⟨hverbose, hhooks, hblock, hout, ?_, hprompt⟩
        simp only [Console.complain, herr, String.append_assoc]
        rfl

/-- A line with a bracket left open begins a block, and the block is one program. As long as lines
come that are not blank, the shell only collects them: nothing is run, and no listener is called. At
a blank line the lines are joined and run once, with the listeners of the shell and on a zeroed
tape, and the shell replies to that run. To a line that is a program by itself it replies in the
same way, at once. -/
theorem readLines_block {s : Shell L} (hs : s.block = #[]) {first blank : String}
    {more : List String} (hfirst : (Text.brackets first.toList).opened ≠ [])
    (hmore : ∀ line ∈ more, Text.strip line.toList ≠ []) (hblank : Text.strip blank.toList = [])
    (fuel : Nat) :
    (∀ n, s.readLines fuel (first :: more.take n) =
      .stay (s.collecting (first :: more.take n))) ∧
    (s.collecting (first :: more)).prompt.Replies
      (({ source := "\n".intercalate (first :: more), file, hooks := s.hooks } : Interp L).run fuel
        Tape.fresh)
      (s.readLines fuel (first :: (more ++ [blank]))) ∧
    ∀ line, s.Entry line → (∃ p, Program.parse line file = .ok p) →
      s.prompt.Replies
        (({ source := line, file, hooks := s.hooks } : Interp L).run fuel Tape.fresh)
        (s.readLines fuel [line]) := by
  refine ⟨fun n => readLines_of_opened hs hfirst
    (fun line h => hmore line (List.mem_of_mem_take h)) fuel, ?_, ?_⟩
  · rw [← List.cons_append, readLines_append, readLines_of_opened hs hfirst hmore]
    simp only [readLines_singleton]
    rw [read_blank rfl hblank]
    exact enter_replies _ rfl fuel _ _ fun e _ => rfl
  · rintro line hentry ⟨p, hp⟩
    have hentry : s.prompt.Entry line := ⟨hentry.1, hentry.2, hentry.3, hentry.4⟩
    have hclosed : ({ s.prompt with block := #[] } : Shell L) = s.prompt := by rw [← hs]; rfl
    rw [readLines_singleton, hentry.read_eq]
    have hreplies := enter_replies s.prompt rfl fuel line
      (fun _ => { s.prompt with block := #[line] }) fun e he => by cases hp.symm.trans he
    rwa [hclosed] at hreplies

/-- In the block of `+[`, `exit` and `help -]` the two words are commentary. A tracer watches. -/
theorem readLines_block_of_words :
    let s : Shell := { hooks := #[⟨.on .beforeInstruction, .tracer, 0⟩] }
    (Text.brackets "+[".toList).opened ≠ [] ∧
      (∀ line ∈ ["exit", "help -]"], Text.strip line.toList ≠ []) ∧
      Text.strip " ".toList = [] ∧
      s.readLines 9 ["+[", "exit"] = .stay (s.collecting ["+[", "exit"]) ∧
      (s.collecting ["+[", "exit", "help -]"]).prompt.Replies
        (({ source := "+[\nexit\nhelp -]", file, hooks := s.hooks } : Interp Observer).run 9
          Tape.fresh)
        (s.readLines 9 ["+[", "exit", "help -]", " "]) := by
  intro s
  have hfirst : (Text.brackets "+[".toList).opened ≠ [] := by decide
  have hmore : ∀ line ∈ ["exit", "help -]"], Text.strip line.toList ≠ [] := by decide
  have hblank : Text.strip " ".toList = [] := by decide
  obtain ⟨hcollect, hreply, -⟩ := readLines_block (s := s) rfl hfirst hmore hblank 9
  exact ⟨hfirst, hmore, hblank, hcollect 1, hreply⟩

end Shell

end TapeLang
