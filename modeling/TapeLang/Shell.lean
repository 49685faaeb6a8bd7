import TapeLang.Extension
import TapeLang.Text.Feed
import TapeLang.Traceback
import TapeLang.Transcript

/-!
# The interactive shell

The shell reads lines at a prompt. A line that is a program runs at once; a line that is not begins
a block, which runs when a blank line closes it. Every entry runs on a zeroed tape of its own, and
the listeners live as long as the shell. Two words are not programs at the first prompt: one asks
for help, the other leaves.
-/

namespace TapeLang

/-- The shell between two lines. Its listeners are those of extensions, unless others are named. -/
structure Shell (L : Type := Observer) where
  verbose : Bool := false
  hooks : Hooks L := #[]
  /-- The lines of the open block. -/
  block : Array String := #[]
  /-- The last entry has written something, so that the next prompt needs a new line. -/
  wrote : Bool := false
  console : Console := {}

/-- What a line leads to. -/
inductive Shell.Turn (L : Type := Observer) where
  | stay (s : Shell L)
  | leave (t : Transcript)

namespace Shell

variable {L : Type}

/-- The name of the text of an entry. -/
def file : String := "<repl>"

/-- The line that explains the two words. -/
def helpLine : String := "Enter 'help' for this help message and 'exit' to exit."

/-- What the shell says first. -/
def greeting : String := s!"Entering interactive shell. {helpLine}\n"

/-- Write to the results. -/
def print (s : Shell L) (text : String) : Shell L := { s with console := s.console.print text }

/-- Show the prompt, on a line of its own. -/
def prompt (s : Shell L) : Shell L :=
  let start := if s.wrote then "\n" else ""
  { s.print (start ++ if s.block.isEmpty then ">>> " else "..> ") with wrote := false }

/-- Take over what a run has written and what has become of the listeners. -/
def after (s : Shell L) (i : Interp L) : Shell L :=
  { s with hooks := i.hooks, wrote := 0 < i.sink.calls, console := s.console.absorb i }

/-- The end of the input leaves the shell. -/
def close (s : Shell L) : Transcript := (s.print "\n").console.exit 0

/-- What happens at a prompt when no line is left: the input has ended, or it is no text. -/
def runDry (s : Shell L) : Option Text.Utf8.DecodeError → Transcript
  | none => s.close
  | some e => ⟨s.console, .escaped (.undecodable e)⟩

/-- The shell as it greets. -/
def greet (verbose : Bool) (hooks : Hooks L) : Shell L :=
  print { verbose, hooks } greeting

variable [Listener L]

/-- Run an entry; `refused` says what to do when it is no program. -/
def enter (fuel : Nat) (s : Shell L) (text : String) (refused : ParseError → Shell L) : Turn L :=
  let i : Interp L := { source := text, file, hooks := s.hooks }
  match i.run fuel Tape.fresh with
  | .unparsed e _ => .stay (refused e)
  | .finished i => .stay (s.after i)
  | .stopped ⟨stop, i⟩ =>
    let s := s.after i
    match stop with
    | .exit code => .leave (s.console.exit code)
    | .fault f => .stay { s with console := s.console.complain (i.traceback f s.verbose) }
    | .interrupt text => .leave ⟨s.console, .escaped (.interrupt text)⟩
    | .quit kind text => .leave ⟨s.console, .escaped (.quit kind text)⟩
    | .failure f => .leave ⟨s.console, .escaped (.failure f)⟩
  | .unfinished c => .leave ⟨(s.after c.state).console, .unfinished⟩

/-- Read a line. -/
def read (fuel : Nat) (s : Shell L) (line : String) : Turn L :=
  let stripped := Text.strip line.toList
  if s.block.isEmpty then
    if stripped = "exit".toList then .leave (s.console.exit 0)
    else if stripped = "help".toList then .stay (s.print (helpLine ++ "\n"))
    else if stripped.isEmpty then .stay s
    else s.enter fuel line fun _ => { s with block := #[line] }
  else if stripped.isEmpty then
    let text := "\n".intercalate s.block.toList
    let s := { s with block := #[] }
    s.enter fuel text fun e =>
      { s with console := s.console.complain s!"ParseError: {e.message}" }
  else .stay { s with block := s.block.push line }

/-- Read lines one after the other, unless the shell is left before; `refusal` is what stands behind
the last of them. -/
def session (fuel : Nat) (refusal : Option Text.Utf8.DecodeError) (s : Shell L) :
    List String → Transcript
  | [] => s.prompt.runDry refusal
  | line :: rest =>
    match s.prompt.read fuel line with
    | .stay s => s.session fuel refusal rest
    | .leave t => t

end Shell

end TapeLang
