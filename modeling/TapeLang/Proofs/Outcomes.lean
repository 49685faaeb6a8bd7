import TapeLang.Proofs.Blocks
import TapeLang.Proofs.Routes
import TapeLang.Proofs.Single

/-!
# How a command turns out

A command that is to run a program, has one, and can load its extensions, turns out as the run of
the program does. Each way in which a run may end has a status and a report of its own. What the
program has written is the whole of the results, whichever way it is, and the switches for the
diagnostics never come into the results or the status.
-/

namespace TapeLang

namespace Command

variable {L : Type}

/-- The text that a command is to run, and the name of its file: the argument as it is, a file that
is decoded and has plain newlines, or piped input with a character for every byte. -/
inductive Settings.Reads (s : Settings) (w : Surroundings L) : String → String → Prop where
  | argument {text : String} (literal : s.source = true) (program : s.program = some text) :
      Reads s w text "<string>"
  | file {path : String} {file : File L} {cs : List Char} (literal : s.source = false)
      (program : s.program = some path) (proper : path.contains '\x00' = false)
      (found : w.find path = .ok file) (decoded : Text.Utf8.decode file.bytes = .ok cs) :
      Reads s w (String.ofList (Text.plainNewlines cs)) path
  | pipe {bytes : List UInt8} (literal : s.source = false) (program : s.program = none)
      (piped : w.input = .piped bytes) :
      Reads s w (String.ofList (bytes.map fun b => Char.ofNat b.toNat)) "<stdin>"

/-- There is no other way to give a text. -/
theorem readProgram_eq_ok_iff {w : Surroundings L} {s : Settings} {text name : String} :
    readProgram w s = .ok (text, name) ↔ s.Reads w text name := by
  constructor
  · intro h
    simp only [readProgram] at h
    split at h
    · next program =>
      split at h
      · cases h
      · next literal =>
        split at h
        · next piped =>
          cases h
          exact .pipe (eq_false_of_ne_true literal) program piped
        · cases h
    · next program =>
      split at h
      · next literal =>
        cases h
        exact .argument literal program
      · next literal =>
        split at h
        · cases h
        · next proper =>
          split at h
          · cases h
          · next found =>
            split at h
            · cases h
            · next decoded =>
              cases h
              exact .file (eq_false_of_ne_true literal) program (eq_false_of_ne_true proper) found
                decoded
  · intro h
    cases h with
    | argument literal program => simp only [readProgram, program, literal, if_true]
    | file literal program proper found decoded =>
      simp only [readProgram, program, literal, proper, found, decoded, Bool.false_eq_true,
        if_false]
    | pipe literal program piped =>
      simp only [readProgram, program, literal, piped, Bool.false_eq_true, if_false]

/-- The transcript of a command whose run has turned out like this. What the program has written
stands alone in the results, and what its listeners have reported comes first in the diagnostics. -/
inductive Settings.Reports (s : Settings) : Verdict L → Transcript → Prop where
  | finished {i : Interp L} : Reports s (.finished i) ⟨⟨i.sink.text, i.reported⟩, .status 0⟩
  | unparsed {e : ParseError} {i : Interp L} :
      Reports s (.unparsed e i) ⟨⟨"", "ParseError: " ++ e.message ++ "\n"⟩, .status 1⟩
  | exited {code : Int} {i : Interp L} :
      Reports s (.stopped ⟨.exit code, i⟩) ⟨⟨i.sink.text, i.reported⟩, .status code⟩
  | faulted {f : Fault} {i : Interp L} :
      Reports s (.stopped ⟨.fault f, i⟩)
        ⟨⟨i.sink.text, i.reported ++ i.traceback f s.verbose ++ "\n" ++
          if s.tracebackJson then (i.tracebackJson f).render ++ "\n" else ""⟩, .status 1⟩
  | interrupted {word : String} {i : Interp L} :
      Reports s (.stopped ⟨.interrupt word, i⟩)
        ⟨⟨i.sink.text, i.reported ++ "Interrupted\n"⟩, .status 1⟩
  | quitted {kind word : String} {i : Interp L} :
      Reports s (.stopped ⟨.quit kind word, i⟩)
        ⟨⟨i.sink.text, i.reported⟩, .escaped (.quit kind word)⟩
  | unfinished {c : Config L} :
      Reports s (.unfinished c) ⟨⟨c.state.sink.text, c.state.reported⟩, .unfinished⟩

/-- Settings that differ in the switches for the diagnostics only. -/
def Settings.Alike (s s' : Settings) : Prop :=
  { s' with verbose := s.verbose, tracebackJson := s.tracebackJson } = s

/-- The switches for the diagnostics do not come into what a command is to run. -/
theorem Settings.Reads.of_alike {w : Surroundings L} {s s' : Settings} {text name : String}
    (alike : s.Alike s') (reads : s.Reads w text name) : s'.Reads w text name := by
  rw [← alike] at reads
  cases reads with
  | argument literal program => exact .argument literal program
  | file literal program proper found decoded => exact .file literal program proper found decoded
  | pipe literal program piped => exact .pipe literal program piped

variable [Listener L]

/-- A run is reported on, whichever way it turns out. -/
theorem execute_reports (i : Interp L) (s : Settings) (fuel : Nat) :
    s.Reports (i.run fuel Tape.fresh) (execute fuel i s) := by
  have habsorb : ∀ j : Interp L, Console.absorb {} j = ⟨j.sink.text, j.reported⟩ := fun j => by
    rw [Console.absorb_eq, String.empty_append, String.empty_append]
  rw [execute]
  generalize hv : i.run fuel Tape.fresh = v
  cases v with
  | unparsed e j => exact .unparsed
  | finished j =>
    simp only [habsorb]
    exact .finished
  | unfinished c =>
    simp only [habsorb]
    exact .unfinished
  | stopped halt =>
    obtain ⟨stop, j⟩ := halt
    cases stop with
    | failure f => exact absurd hv (i.run_ne_failure _ _ _ _)
    | exit code =>
      simp only [habsorb]
      exact .exited
    | interrupt word =>
      simp only [habsorb, Console.complain, String.append_assoc]
      exact .interrupted
    | quit kind word =>
      simp only [habsorb]
      exact .quitted
    | fault f =>
      have hfaulted : s.Reports (.stopped ⟨.fault f, j⟩) _ := .faulted
      cases hjson : s.tracebackJson <;>
        simpa [habsorb, Console.complain, Console.exit, hjson, String.append_assoc] using hfaulted

/-- The switches for the diagnostics come into neither the results nor the end. -/
theorem execute_alike (i : Interp L) (s s' : Settings) (fuel : Nat) :
    Same (execute fuel i s) (execute fuel i s') := by
  rw [execute, execute]
  cases i.run fuel Tape.fresh with
  | unparsed | finished | unfinished => exact ⟨rfl, rfl⟩
  | stopped halt =>
    obtain ⟨stop, j⟩ := halt
    cases stop with
    | fault f =>
      simp only
      split <;> split <;> exact ⟨rfl, rfl⟩
    | failure | exit | interrupt | quit => exact ⟨rfl, rfl⟩

variable {w : Surroundings L} {args : List String} {s : Settings} {hooks : Hooks L}
  {text name : String}

/-- What a command runs. -/
theorem run_eq_execute (understood : Settings.ofArgs args = .ok s) (batch : s.interactive = false)
    (loads : loadAll w #[] s.extensions = .ok hooks) (reads : s.Reads w text name) (fuel : Nat) :
    run fuel w args = execute fuel
      { source := text, file := Text.PathName.ofSource w.directory name, hooks } s := by
  simp only [run, understood, loads, batch, readProgram_eq_ok_iff.2 reads, Bool.false_eq_true,
    if_false]

end Command

/-! ## A run that is left at its end -/

namespace Interp

/-- The program `.`, left by a listener at its end. -/
theorem run_left (file : String) :
    let i : Interp Observer := { source := ".", file, hooks := #[⟨.on .programEnd, .leaver 7, 0⟩] }
    ∃ u : Interp Observer, i.EndsIn Tape.fresh (.stopped ⟨.exit 7, u⟩) ∧
      u.sink.text = "\x00" ∧ u.reports = i.reports := by
  intro i
  let place : Location := (Source.ofText "." file).place 0
  let node : Node := .op .output (some place)
  obtain ⟨finish, hparse⟩ : ∃ finish, i.parse = .ok ⟨[node], finish⟩ := by
    have hspells : Spells (Source.ofText "." file) true 0 1 [node] := .op rfl (.nil true 1)
    have hsize : (Source.ofText "." file).tokens.size = 2 := rfl
    exact Program.exists_parse_of_spells hsize hspells (by simp [Node.depth, node])
  let t : Interp Observer := i.load ⟨[node], finish⟩ Tape.fresh
  have hbegin : i.begin ⟨[node], finish⟩ Tape.fresh = .ok ⟨t, [node], false, []⟩ := by
    have hidle : t.hooks.idle = true := by
      simp [t, load, i, Hooks.idle, Trigger.perInstruction]
    have hdeaf : t.announce .started = .ok t := announce_of_deaf rfl rfl
    rw [begin, hdeaf]
    simp only [Config.enter, hidle, Bool.not_true]
    rfl
  let u : Interp Observer := { t.start node with sink := t.sink.taken "\x00" }
  have hadvance : Config.advance 2 ⟨t, [node], false, []⟩ = .finished u := by
    have hcell : (t.start node).cell = 0 := by
      show Tape.fresh.current = 0
      simp [Tape.fresh, Tape.current]
    have hoperate : (t.start node).operate .output (some place) = .ok u := by
      rw [operate, hcell]
      exact emit_of_open Sink.open_default "\x00"
    simp only [Config.advance, Config.step, announceBefore, Config.perform, node, hoperate,
      Progress.ofResult, announceAfter, Bool.false_eq_true, if_false]
  have hended : u.announce .ended = .error ⟨.exit 7, u.noteCall 0 (.leaver 7) .ended⟩ := by
    have hhooks : u.hooks = #[⟨.on .programEnd, .leaver 7, 0⟩] := rfl
    have hround : u.round .ended = .error ⟨.exit 7, u.noteCall 0 (.leaver 7) .ended⟩ :=
      round_of_hears hhooks rfl rfl fun _ h => by cases h
    rw [announce_eq, hround]
    rfl
  refine ⟨u.noteCall 0 (.leaver 7) .ended, ⟨trivial, 2, ?_⟩, rfl, rfl⟩
  rw [run_of_begin hparse hbegin, hadvance, Progress.verdict, conclude, hended]

end Interp

/-! ## Commands -/

namespace Command

variable {L : Type} [Listener L] {w : Surroundings L} {args : List String} {s : Settings}
  {hooks : Hooks L} {text name : String}

/-- A command that is understood, does not ask for the shell, loads its extensions and has a text to
run reports on the run of this text, after whatever number of steps, and for good once the run has
ended. A command line that differs in the switches for the diagnostics only has the same results and
ends the same way. -/
theorem run_reports (understood : Settings.ofArgs args = .ok s) (batch : s.interactive = false)
    (loads : loadAll w #[] s.extensions = .ok hooks) (reads : s.Reads w text name) :
    let i : Interp L := { source := text, file := Text.PathName.ofSource w.directory name, hooks }
    (∀ fuel, s.Reports (i.run fuel Tape.fresh) (run fuel w args)) ∧
    (∀ v, i.EndsIn Tape.fresh v → ∃ enough, ∀ fuel, enough ≤ fuel →
      s.Reports v (run fuel w args)) ∧
    ∀ args' s', Settings.ofArgs args' = .ok s' → s.Alike s' → ∀ fuel,
      Same (run fuel w args) (run fuel w args') := by
  intro i
  have hreports : ∀ fuel, s.Reports (i.run fuel Tape.fresh) (run fuel w args) := by
    intro fuel
    rw [run_eq_execute understood batch loads reads]
    exact execute_reports i s fuel
  refine ⟨hreports, ?_, ?_⟩
  · rintro v ⟨hsettled, enough, rfl⟩
    refine ⟨enough, fun fuel hle => ?_⟩
    have hstable := Interp.run_stable hsettled (fuel - enough)
    rw [Nat.add_sub_of_le hle] at hstable
    rw [← hstable]
    exact hreports fuel
  · intro args' s' understood' alike fuel
    have hbatch : s'.interactive = false := by rw [← batch, ← alike]
    have hloads : loadAll w #[] s'.extensions = .ok hooks := by rw [← loads, ← alike]
    rw [run_eq_execute understood batch loads reads,
      run_eq_execute understood' hbatch hloads (reads.of_alike alike)]
    exact execute_alike i s s' fuel

/-- Of the program `.`, which a listener leaves at its end, the character that it has written is
kept, and the command ends with the code of the listener, whatever is asked for of the
diagnostics. -/
theorem run_reports_exit :
    let w : Surroundings :=
      { directory := "/d"
        find := fun _ => .ok { extension := .subscribing [(.on "program_end", .leaver 7)] } }
    let args := ["--ext", "x", "--source", "."]
    (∃ enough, ∀ fuel, enough ≤ fuel → run fuel w args = ⟨⟨"\x00", ""⟩, .status 7⟩) ∧
      ∀ fuel, Same (run fuel w args) (run fuel w ("--verbose" :: "--traceback-json" :: args)) := by
  intro w args
  have hverbose := Part.ofArgs_spelling (show "--verbose".startsWith "-" = true by simp)
    (show Flag.ofSpelling? "--verbose" = some .verbose by decide)
  have hjson := Part.ofArgs_spelling (show "--traceback-json".startsWith "-" = true by simp)
    (show Flag.ofSpelling? "--traceback-json" = some .tracebackJson by decide)
  have hpath := Part.ofArgs_plain (show "x".startsWith "-" = false by simp)
  have htext := Part.ofArgs_plain (show ".".startsWith "-" = false by simp)
  let s : Settings := { program := some ".", source := true, extensions := [some "x"] }
  let s' : Settings := { s with verbose := true, tracebackJson := true }
  have understood : Settings.ofArgs args = .ok s := by
    simp only [args, Settings.ofArgs, Part.ofArgs_ext, hpath, Part.ofArgs_source, htext]
    rfl
  have understood' :
      Settings.ofArgs ("--verbose" :: "--traceback-json" :: args) = .ok s' := by
    simp only [args, Settings.ofArgs, hverbose, hjson, Part.ofArgs_ext, hpath, Part.ofArgs_source,
      htext]
    rfl
  let hooks : Hooks Observer := #[⟨.on .programEnd, .leaver 7, 0⟩]
  have loads : loadAll w #[] s.extensions = .ok hooks := rfl
  have reads : s.Reads w "." "<string>" := .argument rfl rfl
  obtain ⟨-, hends, halike⟩ := run_reports understood rfl loads reads
  refine ⟨?_, halike _ s' understood' rfl⟩
  obtain ⟨u, hover, hsink, hu⟩ :=
    Interp.run_left (Text.PathName.ofSource w.directory "<string>")
  have hreported : u.reported = "" := by
    rw [Interp.reported, hu]
    rfl
  obtain ⟨enough, henough⟩ := hends _ hover
  refine ⟨enough, fun fuel hle => ?_⟩
  have hreports := henough fuel hle
  generalize run fuel w args = transcript at hreports ⊢
  cases hreports
  rw [hsink, hreported]

end Command

end TapeLang
