import TapeLang.Interp

/-!
# Calling the listeners

A listener that is called answers with a list of actions, which are carried out in order until one
stops the run. A round goes through the subscriptions in the order in which they were made and calls
those that hear the signal. It reaches subscriptions that are made while it is under way; listeners
are such that it ends nevertheless.
-/

namespace TapeLang

/-- What a listener may do when it is called. -/
inductive Action (L : Type) where
  /-- Fail. -/
  | fail (f : Failure)
  /-- Stop the run with a fault. -/
  | fault (f : Fault)
  /-- Stop the run with an exit code. -/
  | exit (code : Int)
  /-- Interrupt the run. -/
  | interrupt (text : String)
  /-- Quit. -/
  | quit (kind text : String)
  /-- Write a cell of the interpreter's own tape. The index is meant to be one of the tape's; with
  any other the tape stays as it is. -/
  | setCell (index : Nat) (value : UInt8)
  /-- Move the pointer of the interpreter's own tape. The index is meant to be one of the tape's;
  with any other the tape stays as it is. -/
  | point (index : Nat)
  /-- Write a text to the sink. -/
  | emit (text : String)
  /-- Report a line to the user, apart from the program's output. -/
  | report (line : String)
  /-- Subscribe another listener. -/
  | subscribe (r : Request) (l : L)
  /-- Add statements to the end of the program at hand. This is meant for the start of a program:
  once its statements are being executed, the pass over them is settled. -/
  | append (nodes : List Node)

instance {L : Type} : Inhabited (Action L) := ⟨.append []⟩

/-- What a listener sees when it is called. -/
structure Scene where
  steps : Nat
  stack : List Frame
  tape : Option Tape

/-- The words for what failed when a listener of this notice fails. -/
def Notice.subject (n : Notice) : String :=
  match n.signal with
  | .event e => s!"Extension hook '{e.name}'"
  | .tick _ => "Extension step rule"

namespace Interp

variable {L : Type}

/-- Carry out one action. -/
def perform (s : Interp L) : Action L → Except (Halt L) (Interp L)
  | .fail f => .error ⟨.failure f, s⟩
  | .fault f => .error ⟨.fault f, s⟩
  | .exit code => .error ⟨.exit code, s⟩
  | .interrupt text => .error ⟨.interrupt text, s⟩
  | .quit kind text => .error ⟨.quit kind text, s⟩
  | .setCell index value => .ok { s with tape := s.tape.map (Tape.write index value) }
  | .point index => .ok { s with tape := s.tape.map (Tape.point index) }
  | .emit text => s.emit text
  | .report line => .ok { s with reports := s.reports.push line }
  | .subscribe r l =>
    match s.hooks.subscribe r l with
    | .ok hooks => .ok { s with hooks }
    | .error e => .error ⟨.failure (.refused e), s⟩
  | .append nodes => .ok { s with program := s.program ++ nodes }

/-- Carry out actions in order, up to the first that stops the run. -/
def performAll (s : Interp L) : List (Action L) → Except (Halt L) (Interp L)
  | [] => .ok s
  | a :: rest =>
    match s.perform a with
    | .ok s => s.performAll rest
    | .error h => .error h

/-- What a listener that is called now sees. -/
def scene (s : Interp L) : Scene := ⟨s.steps, s.stack, s.tape⟩

/-- Note a call: in the journal, and in the count of the subscription's calls. -/
def noteCall (s : Interp L) (i : Nat) (l : L) (n : Notice) : Interp L :=
  let call : Call L :=
    { listener := l, notice := n, steps := s.steps, stack := s.stack,
      top := s.program.length, cell := s.tape.map fun t => (t.pointer.val, t.current) }
  { s with hooks := s.hooks.count i, journal := s.journal.push call }

/-- A round goes from an earlier place to a later one, when listeners react like this: from the
subscription at an index to the next one, in the state that a call may have left. -/
inductive Onward (react : L → Nat → Notice → Scene → List (Action L)) (n : Notice) :
    Interp L × Nat → Interp L × Nat → Prop where
  | called {s s' : Interp L} {i : Nat} (within : i < s.hooks.size)
      (hears : s.hooks[i].trigger.hears n.signal = true)
      (ok : (s.noteCall i s.hooks[i].listener n).performAll
        (react s.hooks[i].listener (s.hooks[i].calls + 1) n s.scene) = .ok s') :
      Onward react n (s', i + 1) (s, i)
  | passed {s : Interp L} {i : Nat} (within : i < s.hooks.size)
      (deaf : ¬s.hooks[i].trigger.hears n.signal = true) : Onward react n (s, i + 1) (s, i)

end Interp

/-- The behaviour of listeners. Which call it is, counted from one, is part of what a listener
knows. A listener may subscribe others as it likes, as long as no round goes on for ever. -/
class Listener (L : Type) where
  react : L → Nat → Notice → Scene → List (Action L)
  ends (n : Notice) : WellFounded (Interp.Onward react n)

namespace Interp

variable {L : Type} [Listener L]

/-- Call the listener of the subscription at index `i`. -/
def callListener (s : Interp L) (i : Nat) (sub : Subscription L) (n : Notice) :
    Except (Halt L) (Interp L) :=
  let actions := Listener.react sub.listener (sub.calls + 1) n s.scene
  (s.noteCall i sub.listener n).performAll actions

/-- Call, from index `i` on, every listener that hears the notice, in the order of subscription. -/
def roundFrom (s : Interp L) (n : Notice) (i : Nat) : Except (Halt L) (Interp L) :=
  if h : i < s.hooks.size then
    if s.hooks[i].trigger.hears n.signal then
      match _called : s.callListener i s.hooks[i] n with
      | .ok s' => s'.roundFrom n (i + 1)
      | .error halt => .error halt
    else s.roundFrom n (i + 1)
  else .ok s
termination_by (Listener.ends n).wrap (s, i)
decreasing_by
  · next hears => exact .called h hears _called
  · next deaf => exact .passed h deaf

/-- One round of calls for a notice. -/
def round (s : Interp L) (n : Notice) : Except (Halt L) (Interp L) := s.roundFrom n 0

/-- One round of calls within a run: the failure of a listener becomes a fault, placed where
execution has got to. Every other stop passes as it is. -/
def announce (s : Interp L) (n : Notice) : Except (Halt L) (Interp L) :=
  match s.round n with
  | .error ⟨.failure f, s⟩ =>
    .error ⟨.fault {
      message := s!"{n.subject} failed: {f.text}", rule := some "EXT", location := s.position,
      cause := some f }, s⟩
  | r => r

end Interp

end TapeLang
