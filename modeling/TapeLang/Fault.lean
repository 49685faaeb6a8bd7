import TapeLang.Event
import TapeLang.Location

/-!
# Faults and other ways to stop

A fault is a failure of the running program, told with a place and a rule. A failure comes from
outside the program, from a listener or from the sink, and becomes a fault when the run reports it.
A run also stops on request, with an exit code, by an interrupt, or because a listener or the sink
quits, which only whoever started the run can answer. None of these is a failure.
-/

namespace TapeLang

/-- A failure from outside the program. -/
inductive Failure where
  /-- A listener or the sink failed; `kind` is the word by which it reports itself. -/
  | named (kind text : String)
  /-- A subscription was refused. -/
  | refused (e : SubscribeError)
  /-- More loops were active inside one another than a run supports. -/
  | nesting
  deriving DecidableEq, Repr

/-- The wording of a failure. -/
def Failure.text : Failure → String
  | .named _ text => text
  | .refused e => e.message
  | .nesting => "maximum recursion depth exceeded"

/-- A failure of the running program. -/
structure Fault where
  /-- The word by which the fault is reported. -/
  kind : String := "BFRuntimeError"
  message : String
  /-- The rule that was broken, if the fault names one. -/
  rule : Option String := none
  location : Option Location := none
  /-- How many instructions had been started, once the run has noted it. -/
  step : Option Nat := none
  /-- The failure that this fault reports, when it comes from outside the program. -/
  cause : Option Failure := none
  deriving DecidableEq, Repr

/-- Why execution stops before the end of the program. -/
inductive Stop where
  | fault (f : Fault)
  | failure (f : Failure)
  | exit (code : Int)
  | interrupt (text : String)
  /-- A listener or the sink quits; `kind` is the word by which it does. -/
  | quit (kind text : String)
  deriving DecidableEq, Repr

end TapeLang
