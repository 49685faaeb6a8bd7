/-!
# Events, signals and triggers

A run announces seven kinds of event, and a tick with the number of instructions started so far.
A trigger says which of them a listener hears: one kind of event, or every tick whose count is a
multiple of an interval.
-/

namespace TapeLang

/-- The kinds of event that a run announces. -/
inductive Event where
  | programStart
  | programEnd
  | beforeInstruction
  | afterInstruction
  | loopEnter
  | loopExit
  | onError
  deriving DecidableEq, Repr

namespace Event

/-- Every kind of event. -/
def all : List Event :=
  [.programStart, .programEnd, .beforeInstruction, .afterInstruction, .loopEnter, .loopExit,
   .onError]

/-- The name under which listeners ask for the event. -/
def name : Event → String
  | .programStart => "program_start"
  | .programEnd => "program_end"
  | .beforeInstruction => "before_instruction"
  | .afterInstruction => "after_instruction"
  | .loopEnter => "loop_enter"
  | .loopExit => "loop_exit"
  | .onError => "on_error"

/-- The event of a name. -/
def ofName? (s : String) : Option Event :=
  all.find? fun e => e.name = s

/-- A name belongs to an event exactly when the event is called so. -/
theorem ofName?_eq_some_iff {s : String} {e : Event} : ofName? s = some e ↔ e.name = s := by
  constructor
  · intro h
    simpa using List.find?_some h
  · rintro rfl
    cases e <;> decide

end Event

/-- What goes out to the listeners: an event, or a tick of the instruction counter. -/
inductive Signal where
  | event (e : Event)
  | tick (count : Int)
  deriving DecidableEq, Repr

/-- Which signals a listener hears. -/
inductive Trigger where
  | on (e : Event)
  | every (interval : Nat) (pos : 0 < interval)
  deriving DecidableEq, Repr

/-- A periodic trigger hears every multiple of its interval, zero and negative ones included. -/
def Trigger.hears : Trigger → Signal → Bool
  | .on e, .event e' => e = e'
  | .every n _, .tick count => count % (n : Int) = 0
  | _, _ => false

/-- Whether a trigger may hear a signal of a single instruction. -/
def Trigger.perInstruction : Trigger → Bool
  | .on .beforeInstruction | .on .afterInstruction | .every _ _ => true
  | .on _ => false

/-- A trigger as it is asked for: an event by name, or an interval. -/
inductive Request where
  | on (name : String)
  | every (interval : Int)
  deriving DecidableEq, Repr, Inhabited

/-- Why a request is refused. -/
inductive SubscribeError where
  | unknownEvent (name : String)
  | badInterval
  deriving DecidableEq, Repr

/-- The wording of a refusal. -/
def SubscribeError.message : SubscribeError → String
  | .unknownEvent name => s!"Unknown event '{name}'"
  | .badInterval => "Step interval must be >= 1"

/-- The trigger that a request asks for. -/
def Request.trigger : Request → Except SubscribeError Trigger
  | .on name =>
    match Event.ofName? name with
    | some e => .ok (.on e)
    | none => .error (.unknownEvent name)
  | .every interval =>
    if h : 1 ≤ interval then .ok (.every interval.toNat (by omega)) else .error .badInterval

end TapeLang
