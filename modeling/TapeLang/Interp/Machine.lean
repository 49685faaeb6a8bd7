import TapeLang.Interp.Round

/-!
# Execution

Execution goes over statement lists in passes: the program itself is one pass, and every turn of a
loop is another. A configuration holds the pass at hand and, for each active loop, what is left of
the pass around it. One step starts the next statement, or, at the end of a loop's body, tests the
loop's cell again. Whether a pass is traced, that is whether its statements are announced to the
listeners, is settled when the pass begins.
-/

namespace TapeLang

/-- An active loop and the rest of the pass around it. -/
structure ActiveLoop where
  location : Location
  body : List Node
  /-- The statements after the loop. -/
  rest : List Node
  /-- Whether the pass around the loop is traced. -/
  traced : Bool

/-- The loop as a statement. -/
def ActiveLoop.node (l : ActiveLoop) : Node := .loop l.location l.body

/-- Execution under way. -/
structure Config (L : Type) where
  state : Interp L
  /-- The statements that the pass at hand has still to start. -/
  rest : List Node
  /-- Whether the pass at hand is traced. -/
  traced : Bool
  /-- The active loops, the innermost first. -/
  loops : List ActiveLoop

/-- What one step of execution leads to. -/
inductive Progress (L : Type) where
  | running (c : Config L)
  | finished (s : Interp L)
  | halted (h : Halt L)

/-- Execution goes on from the result of a part that may halt. -/
def Progress.ofResult {L : Type} (r : Except (Halt L) (Interp L)) (next : Interp L → Config L) :
    Progress L :=
  match r with
  | .ok s => .running (next s)
  | .error h => .halted h

namespace Interp

variable {L : Type}

/-- Count the start of a statement and note it in the innermost frame. -/
def start (n : Node) (s : Interp L) : Interp L :=
  reach n { s with steps := s.steps + 1 }

/-- The effect of an operation. -/
def operate (s : Interp L) (o : Op) (location : Option Location) : Except (Halt L) (Interp L) :=
  match o with
  | .right => .ok (s.alter Tape.right)
  | .left => .ok (s.alter Tape.left)
  | .increment => .ok (s.alter (Tape.modify (· + 1)))
  | .decrement => .ok (s.alter (Tape.modify (· - 1)))
  | .output => s.emit (String.singleton (Char.ofNat s.cell.toNat))
  | .input => .error ⟨.fault {
      message := "The ',' operator is not supported.", rule := some "InputReplace", location }, s⟩

/-- The effect of an instruction of no kind. -/
def refuse (s : Interp L) (location : Option Location) : Halt L :=
  ⟨.fault {
    message := "Unsupported instruction Instruction", rule := some "internal", location }, s⟩

variable [Listener L]

/-- What the listeners hear before a statement takes effect. -/
def announceBefore (traced : Bool) (n : Node) (s : Interp L) : Except (Halt L) (Interp L) :=
  if traced then
    match s.announce (.before n) with
    | .ok s => s.announce (.tick s.steps)
    | .error h => .error h
  else .ok s

/-- What the listeners hear after a statement has taken effect. -/
def announceAfter (traced : Bool) (n : Node) (s : Interp L) : Except (Halt L) (Interp L) :=
  if traced then s.announce (.after n) else .ok s

end Interp

namespace Config

variable {L : Type}

/-- The greatest number of loops that may be active inside one another. -/
def maxActive : Nat := 332

variable [Listener L]

/-- Begin to execute a statement list. -/
def enter (s : Interp L) (nodes : List Node) : Config L :=
  let traced := !s.hooks.idle
  ⟨s, nodes, traced, []⟩

/-- Leave a loop and go on after it. -/
def leave (s : Interp L) (l : ActiveLoop) (outer : List ActiveLoop) : Progress L :=
  match s.announce (.left l.node) with
  | .ok s =>
    .ofResult (s.pop.announceAfter l.traced l.node) fun s => ⟨s, l.rest, l.traced, outer⟩
  | .error h => .halted h

/-- Test the cell of a loop: begin a pass over its body, or leave it. -/
def turn (s : Interp L) (l : ActiveLoop) (outer : List ActiveLoop) : Progress L :=
  if s.cell = 0 then leave s l outer
  else
    let traced := !s.hooks.idle
    .running ⟨s, l.body, traced, l :: outer⟩

/-- The effect of a loop: nothing when the cell is zero, otherwise its frame is put on the call
stack, and the cell is tested once more after the listeners have heard of it. -/
def descend (s : Interp L) (l : ActiveLoop) (outer : List ActiveLoop) : Progress L :=
  if s.cell = 0 then
    .ofResult (s.announceAfter l.traced l.node) fun s => ⟨s, l.rest, l.traced, outer⟩
  else if maxActive ≤ outer.length then .halted ⟨.failure .nesting, s⟩
  else
    match (s.push (Frame.ofLoop l.location)).announce (.entered l.node) with
    | .ok s => turn s l outer
    | .error h => .halted h

/-- Let a statement take effect. -/
def perform (s : Interp L) (n : Node) (rest : List Node) (traced : Bool)
    (loops : List ActiveLoop) : Progress L :=
  match n with
  | .op o location =>
    match s.operate o location with
    | .ok s => .ofResult (s.announceAfter traced n) fun s => ⟨s, rest, traced, loops⟩
    | .error h => .halted h
  | .loop location body => descend s ⟨location, body, rest, traced⟩ loops
  | .bare location => .halted (s.refuse location)

/-- One step of execution. -/
def step : Config L → Progress L
  | ⟨s, n :: rest, traced, loops⟩ =>
    match (s.start n).announceBefore traced n with
    | .ok s => perform s n rest traced loops
    | .error h => .halted h
  | ⟨s, [], _, l :: outer⟩ => turn s l outer
  | ⟨s, [], _, []⟩ => .finished s

/-- Execution for a number of steps, or until it finishes or halts. -/
def advance : Nat → Config L → Progress L
  | 0, c => .running c
  | fuel + 1, c =>
    match c.step with
    | .running c => c.advance fuel
    | r => r

end Config

end TapeLang
