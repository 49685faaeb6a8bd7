import TapeLang.Fault
import TapeLang.Hooks
import TapeLang.Node
import TapeLang.Tape

/-!
# The state of an interpreter

An interpreter keeps the text it runs, a count of the instructions it has started, the frames of
the loops that are active, its tape, its listeners and its sink. A tape may be lent to it for a
single execution: instructions work on the lent one, and listeners go on seeing its own.
-/

namespace TapeLang

/-- The program itself or one active loop, with the statement it has reached. -/
structure Frame where
  name : String
  home : Option Location
  current : Option Node := none

/-- Where a frame is: at its statement, or at its own place before the first one. -/
def Frame.position (f : Frame) : Option Location :=
  match f.current with
  | some n => n.location
  | none => f.home

/-- The frame of a loop is named for its place. -/
def Frame.ofLoop (l : Location) : Frame :=
  ⟨s!"loop@{l.line}:{l.column}", some l, none⟩

/-- Where written text goes. The sink decides at every call whether it takes the text, and a call
that it refuses stops execution in any of the ways there are. -/
structure Sink where
  /-- How the sink refuses the call that so many calls have gone before, if it does. -/
  refusal : Nat → Option Stop := fun _ => none
  /-- How many times the sink has been called. -/
  calls : Nat := 0
  text : String := ""

namespace Sink

/-- The sink after a call that it has refused. -/
def refused (k : Sink) : Sink := { k with calls := k.calls + 1 }

/-- The sink after a call that it has accepted. -/
def taken (k : Sink) (text : String) : Sink :=
  { k with calls := k.calls + 1, text := k.text ++ text }

/-- A sink that takes so many texts and refuses every other in the same way. -/
def closing (n : Nat) (stop : Stop) : Sink where
  refusal i := if i < n then none else some stop

/-- The sink takes every text. -/
def Open (k : Sink) : Prop := ∀ i, k.refusal i = none

/-- The sink refuses calls by failing, and in no other way. -/
def Ordinary (k : Sink) : Prop := ∀ i stop, k.refusal i = some stop → ∃ f, stop = .failure f

theorem open_default : ({} : Sink).Open := fun _ => rfl

variable {k : Sink}

theorem Open.ordinary (h : k.Open) : k.Ordinary := by
  intro i stop hstop
  rw [h i] at hstop
  cases hstop

/-- How a sink refuses calls settles whether it takes every text. -/
theorem Open.of_refusal_eq {k' : Sink} (h : k.Open) (hk : k'.refusal = k.refusal) : k'.Open := by
  rw [Open, hk]
  exact h

theorem Ordinary.of_refusal_eq {k' : Sink} (h : k.Ordinary) (hk : k'.refusal = k.refusal) :
    k'.Ordinary := by
  rw [Ordinary, hk]
  exact h

end Sink

/-- What a listener is told. -/
inductive Notice where
  | started
  | ended
  | before (n : Node)
  | after (n : Node)
  | entered (n : Node)
  | left (n : Node)
  | failed (f : Fault)
  | tick (count : Int)
  /-- An event announced outside any run. -/
  | bare (e : Event)

/-- The signal that a notice goes out with. -/
def Notice.signal : Notice → Signal
  | .started => .event .programStart
  | .ended => .event .programEnd
  | .before _ => .event .beforeInstruction
  | .after _ => .event .afterInstruction
  | .entered _ => .event .loopEnter
  | .left _ => .event .loopExit
  | .failed _ => .event .onError
  | .tick count => .tick count
  | .bare e => .event e

/-- One call of a listener, as the journal keeps it. -/
structure Call (L : Type) where
  listener : L
  notice : Notice
  /-- How many instructions had been started. -/
  steps : Nat
  /-- The frames of the call stack, the innermost first. -/
  stack : List Frame
  /-- How many statements the program had. -/
  top : Nat
  /-- The pointer and the current cell of the interpreter's own tape. -/
  cell : Option (Nat × UInt8)

/-- An interpreter whose listeners are of type `L`. -/
structure Interp (L : Type) where
  source : String := ""
  /-- The name that locations carry. -/
  file : String := ""
  /-- How many instructions have been started. -/
  steps : Nat := 0
  /-- The frames, the innermost first. -/
  stack : List Frame := []
  tape : Option Tape := none
  /-- A tape lent for the execution at hand. -/
  bench : Option Tape := none
  /-- The statements of the program at hand. -/
  program : List Node := []
  hooks : Hooks L := #[]
  sink : Sink := {}
  /-- What listeners have reported, line by line. -/
  reports : Array String := #[]
  journal : Array (Call L) := #[]

/-- Execution stopped, and the state it stopped in. -/
structure Halt (L : Type) where
  stop : Stop
  state : Interp L

namespace Interp

variable {L : Type}

/-- The tape that instructions work on. -/
def work (s : Interp L) : Option Tape := s.bench <|> s.tape

/-- The value of the cell that instructions see; without a tape it reads as zero. -/
def cell (s : Interp L) : UInt8 :=
  match s.work with
  | some t => t.current
  | none => 0

/-- Change the tape that instructions work on. -/
def alter (f : Tape → Tape) (s : Interp L) : Interp L :=
  match s.bench with
  | some t => { s with bench := some (f t) }
  | none => { s with tape := s.tape.map f }

/-- Where execution has got to: the position of the innermost frame. -/
def position (s : Interp L) : Option Location :=
  s.stack.head?.bind Frame.position

/-- Note the statement that the innermost frame has reached. -/
def reach (n : Node) (s : Interp L) : Interp L :=
  { s with stack := match s.stack with
      | [] => []
      | f :: rest => { f with current := some n } :: rest }

/-- Put a frame on the call stack. -/
def push (f : Frame) (s : Interp L) : Interp L := { s with stack := f :: s.stack }

/-- Take the innermost frame off the call stack. -/
def pop (s : Interp L) : Interp L := { s with stack := s.stack.tail }

/-- Write a text to the sink. -/
def emit (text : String) (s : Interp L) : Except (Halt L) (Interp L) :=
  match s.sink.refusal s.sink.calls with
  | none => .ok { s with sink := s.sink.taken text }
  | some stop => .error ⟨stop, { s with sink := s.sink.refused }⟩

theorem emit_of_open {s : Interp L} (h : s.sink.Open) (text : String) :
    s.emit text = .ok { s with sink := s.sink.taken text } := by
  rw [emit, h]

end Interp

end TapeLang
