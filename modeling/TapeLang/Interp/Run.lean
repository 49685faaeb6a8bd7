import TapeLang.Interp.Machine
import TapeLang.Program

/-!
# Runs

A run reads the whole text before it does anything: a text that is no program changes nothing. Then
it executes the program on a tape, under a frame of its own. A fault is noted with the number of
instructions started, announced to the listeners and passed on; any other failure becomes a fault
first. Every other stop passes as it is. The announcements of the start and of the end stand
outside this care: a listener that fails there ends the run at once.

Statements can also be executed directly, under whatever frames there are and with none of that.
-/

namespace TapeLang

/-- How a run turns out. -/
inductive Verdict (L : Type) where
  /-- The text is no program. -/
  | unparsed (e : ParseError) (s : Interp L)
  | finished (s : Interp L)
  | stopped (h : Halt L)
  /-- The allotted number of steps was too small. -/
  | unfinished (c : Config L)

namespace Interp

variable {L : Type}

/-- The program of the interpreter's text. -/
def parse (s : Interp L) : Except ParseError Program := Program.parse s.source s.file

/-- The name of the frame of a whole program. -/
def topLevel : String := "<top-level>"

/-- Take up a program and a tape. -/
def load (s : Interp L) (p : Program) (tape : Tape) : Interp L :=
  { s with
    tape := some tape, bench := none, program := p.statements,
    stack := [⟨topLevel, some p.finish, none⟩] }

/-- The fault that reports a failure from outside the listeners. -/
def wrap (s : Interp L) (f : Failure) : Fault where
  message := s!"Internal interpreter error: {f.text}"
  rule := some "internal"
  location := s.position
  cause := some f

variable [Listener L]

/-- Take up a program and announce its start. -/
def begin (s : Interp L) (p : Program) (tape : Tape) : Except (Halt L) (Config L) :=
  match (s.load p tape).announce .started with
  | .ok s => .ok (Config.enter s s.program)
  | .error h => .error h

/-- Note the step in a fault, announce it, and stop with it. -/
def raise (s : Interp L) (f : Fault) : Halt L :=
  let f := { f with step := some s.steps }
  match s.announce (.failed f) with
  | .ok s => ⟨.fault f, s⟩
  | .error h => h

/-- What a run makes of a halt of its program. -/
def report (h : Halt L) : Halt L :=
  match h with
  | ⟨.fault f, s⟩ => s.raise f
  | ⟨.failure f, s⟩ => s.raise (s.wrap f)
  | h => h

/-- Announce the end of a program and give up its frame. -/
def conclude (s : Interp L) : Verdict L :=
  match s.announce .ended with
  | .ok s => .finished s.pop
  | .error h => .stopped h

/-- Execute a program that has been read. -/
def runProgram (fuel : Nat) (s : Interp L) (p : Program) (tape : Tape) : Verdict L :=
  match s.begin p tape with
  | .error h => .stopped h
  | .ok c =>
    match c.advance fuel with
    | .running c => .unfinished c
    | .finished s => s.conclude
    | .halted h => .stopped (report h)

/-- Run the interpreter's text on a tape, in at most `fuel` steps of execution. -/
def run (fuel : Nat) (s : Interp L) (tape : Tape) : Verdict L :=
  match s.parse with
  | .error e => .unparsed e s
  | .ok p => s.runProgram fuel p tape

/-- Execute statements directly, a number of times over. -/
def execute (fuel : Nat) (s : Interp L) (nodes : List Node) : Nat → Verdict L
  | 0 => .finished s
  | times + 1 =>
    match (Config.enter s nodes).advance fuel with
    | .running c => .unfinished c
    | .finished s => s.execute fuel nodes times
    | .halted h => .stopped h

/-- Lend a tape for direct execution. -/
def lend (tape : Tape) (s : Interp L) : Interp L := { s with bench := some tape }

/-- Give a lent tape back. -/
def giveBack (s : Interp L) : Interp L := { s with bench := none }

end Interp

end TapeLang
