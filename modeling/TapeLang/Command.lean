import TapeLang.Command.Files
import TapeLang.Command.Options
import TapeLang.Shell
import TapeLang.Text.Utf8

/-!
# The command line

A command reads its options, loads its extensions in the order in which they are named, and then
opens the shell or runs one program. The program comes from a file, from the argument itself, or
from piped input, in which every byte is one character. Diagnostics go apart from the program's
output and never change it.
-/

namespace TapeLang.Command

/-- A file: its bytes, and what loading it as an extension comes to. -/
structure File (L : Type := Observer) where
  bytes : List UInt8 := []
  extension : Extension L := .notModule

/-- The standard input. -/
inductive Input where
  /-- There is none. -/
  | closed
  /-- A terminal. -/
  | terminal (bytes : List UInt8)
  /-- A file or a pipe. -/
  | piped (bytes : List UInt8)

/-- What a command finds around it. The listeners of its extensions are observers, unless others are
named. -/
structure Surroundings (L : Type := Observer) where
  /-- The absolute directory that paths are relative to. -/
  directory : String
  /-- The file that a path leads to. -/
  find : String → Except FileError (File L)
  input : Input := .piped []
  /-- The budget that the environment sets. -/
  limit : Option String := none

variable {L : Type}

/-- Load extensions in order. -/
def loadAll (w : Surroundings L) (hooks : Hooks L) :
    List (Option String) → Except LoadError (Hooks L)
  | [] => .ok hooks
  | none :: _ => .error .unnamed
  | some path :: rest =>
    match w.find path with
    | .error _ => .error (.notFound path)
    | .ok file =>
      match file.extension.load path w.limit hooks with
      | .ok hooks => loadAll w hooks rest
      | .error e => .error e

/-- The text of a program and the name of its file, or the end of the command without one. -/
def readProgram (w : Surroundings L) (s : Settings) : Except Transcript (String × String) :=
  let failed (line : String) : Transcript := (Console.complain {} line).exit 1
  match s.program with
  | none =>
    if s.source then .error (failed "-source requires a program string")
    else
      match w.input with
      | .piped bytes =>
        .ok (String.ofList (bytes.map fun b => Char.ofNat b.toNat), "<stdin>")
      | _ => .error (failed s!"Usage: {programName} <filename>")
  | some program =>
    if s.source then .ok (program, "<string>")
    else if program.contains '\x00' then .error ⟨{}, .escaped .nullInPath⟩
    else
      let refused (reason : String) : Transcript := failed s!"Failed to read {program}: {reason}"
      match w.find program with
      | .error e => .error (refused (e.message program))
      | .ok file =>
        match Text.Utf8.decode file.bytes with
        | .error e => .error (refused e.message)
        | .ok cs => .ok (String.ofList (Text.plainNewlines cs), program)

variable [Listener L]

/-- Run a program and report how it went. -/
def execute (fuel : Nat) (i : Interp L) (s : Settings) : Transcript :=
  match i.run fuel Tape.fresh with
  | .unparsed e _ => (Console.complain {} s!"ParseError: {e.message}").exit 1
  | .finished i => (Console.absorb {} i).exit 0
  | .stopped ⟨stop, i⟩ =>
    let c := Console.absorb {} i
    match stop with
    | .exit code => c.exit code
    | .fault f =>
      let c := c.complain (i.traceback f s.verbose)
      (if s.tracebackJson then c.complain (i.tracebackJson f).render else c).exit 1
    | .interrupt _ => (c.complain "Interrupted").exit 1
    | .quit kind text => ⟨c, .escaped (.quit kind text)⟩
    | .failure f => ⟨c, .escaped (.failure f)⟩
  | .unfinished c => ⟨Console.absorb {} c.state, .unfinished⟩

/-- Open the shell on the standard input. -/
def interact (fuel : Nat) (w : Surroundings L) (s : Settings) (hooks : Hooks L) : Transcript :=
  let shell := Shell.greet s.verbose hooks
  match w.input with
  | .closed => ⟨shell.console, .escaped .noInput⟩
  | .terminal bytes | .piped bytes =>
    let feed := Text.Feed.ofBytes bytes
    shell.session fuel feed.refusal feed.lines

/-- Do what a command line asks for. -/
def run (fuel : Nat) (w : Surroundings L) (args : List String) : Transcript :=
  match Settings.ofArgs args with
  | .error .help => (Console.print {} help).exit 0
  | .error (.refused e) => ⟨{ err := e.report }, .status 2⟩
  | .ok s =>
    match loadAll w #[] s.extensions with
    | .error e =>
      if e.isReported then (Console.complain {} s!"ExtensionError: {e.message}").exit 1
      else ⟨{}, .escaped (.loading e)⟩
    | .ok hooks =>
      if s.interactive then interact fuel w s hooks
      else
        match readProgram w s with
        | .error t => t
        | .ok (text, name) =>
          let file := Text.PathName.ofSource w.directory name
          execute fuel { source := text, file, hooks } s

end TapeLang.Command
