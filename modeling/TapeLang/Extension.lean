import TapeLang.Interp.Queue
import TapeLang.Tape.View
import TapeLang.Text.Numeral
import TapeLang.Text.Quoted

/-!
# Extensions

An extension is loaded from a file and subscribes listeners. Loading can fail, because the file is
no module, because the module fails or has nothing to call for the registration, or in the
registration itself. Two extensions are of general use: one dumps the tape when a program ends, the
other stops a program that runs for too long.
-/

namespace TapeLang

/-- The listeners that extensions subscribe. -/
inductive Observer where
  /-- Report every instruction before it takes effect. -/
  | tracer
  /-- Report every loop that is entered or left. -/
  | loopReporter
  /-- Report every fault. -/
  | faultReporter
  /-- Stop with an exit code. -/
  | leaver (code : Int)
  /-- Interrupt the run. -/
  | interrupter
  /-- Fail, naming the count of the tick. -/
  | failer
  /-- Fail with a fixed text. -/
  | breaker (text : String)
  /-- Dump the tape. -/
  | dumper
  /-- Stop once this many instructions have been started. -/
  | limiter (limit : Nat)
  deriving DecidableEq, Repr

namespace Observer

/-- The exit code of a program that is stopped for its length. -/
def limitCode : Int := 124

/-- The word by which an observer's failure reports itself. -/
def failureKind : String := "observer"

/-- The report of an instruction. -/
def instructionReport (n : Node) (c : Scene) : String :=
  let place := match n.location with
    | some l => s!"{l.line}:{l.column}"
    | none => "0:0"
  let cell := match c.tape with
    | some t => s!"p={t.pointer.val} c={t.current.toNat}"
    | none => ""
  s!"{c.steps} {n.symbol} {place} {cell}"

/-- The name of the innermost frame. -/
def innermost (c : Scene) : String :=
  match c.stack with
  | f :: _ => f.name
  | [] => ""

/-- What an observer does when it is told of something. -/
def react (n : Notice) (c : Scene) : Observer → List (Action Observer)
  | .tracer =>
    match n with
    | .before node => [.report (instructionReport node c)]
    | _ => []
  | .loopReporter =>
    match n with
    | .entered _ => [.report s!"enter {innermost c}"]
    | .left _ => [.report s!"exit {innermost c}"]
    | _ => []
  | .faultReporter =>
    match n with
    | .failed f => [.report s!"on_error {f.message}"]
    | _ => []
  | .leaver code => [.exit code]
  | .interrupter => [.interrupt ""]
  | .failer =>
    match n with
    | .tick count => [.fail (.named failureKind s!"boom at {count}")]
    | _ => []
  | .breaker text => [.fail (.named failureKind text)]
  | .dumper =>
    match c.tape with
    | some t => [.report s!"pointer={t.pointer.val}", .report t.dump]
    | none => []
  | .limiter limit =>
    match n with
    | .tick count =>
      if (limit : Int) ≤ count then
        [.report s!"Step limit of {limit} instructions exceeded", .exit limitCode]
      else []
    | _ => []

/-- An observer subscribes nobody. -/
theorem not_mem_react {r : Request} {l l' : Observer} {n : Notice} {c : Scene} :
    .subscribe r l' ∉ l.react n c := by
  cases l <;> simp only [react] <;> (try split) <;> (try split) <;> simp

instance : Listener Observer where
  react l _ n c := l.react n c
  ends _ := Interp.wellFounded_onward emptyWf.wf fun h _ _ => not_mem_react h

end Observer

/-- The budget of a program when nothing else is asked for. -/
def StepLimit.default : Nat := 10000000

/-- The longest interval between two looks at the budget. -/
def StepLimit.checkEvery : Nat := 1000

/-- The variable that sets the budget. -/
def StepLimit.envName : String := "BF_STEP_LIMIT"

/-- What loading an extension file comes to. The listeners that it subscribes are observers, unless
others are named. -/
inductive Extension (L : Type := Observer) where
  /-- The file is no module. -/
  | notModule
  /-- The module fails with this text. -/
  | broken (text : String)
  /-- The module has no function for the registration. -/
  | inert
  /-- The registration fails on its own. -/
  | failing (text : String)
  /-- The registration subscribes listeners. -/
  | subscribing (requests : List (Request × L))
  /-- The registration reads the budget of the environment and subscribes listeners for it. -/
  | budgeted (requests : Nat → List (Request × L))

/-- Why an extension is not loaded. -/
inductive LoadError where
  | notFound (path : String)
  | notModule (path : String)
  | broken (path text : String)
  | inert (path : String)
  | refused (e : SubscribeError)
  | limitNotInteger (raw : String)
  | limitNotPositive
  /-- The registration failed on its own. -/
  | failing (text : String)
  /-- No path is given. -/
  | unnamed
  deriving DecidableEq, Repr

/-- A refusal is reported, unless the registration failed on its own or there was no path. -/
def LoadError.isReported : LoadError → Bool
  | .failing _ | .unnamed => false
  | _ => true

/-- The wording of a refusal. -/
def LoadError.message : LoadError → String
  | .notFound path => s!"Extension not found: {path}"
  | .notModule path => s!"Failed to load extension module: {path}"
  | .broken path text => s!"Failed to import {path}: {text}"
  | .inert path => s!"Extension {path} must define callable register(hooks)"
  | .refused e => e.message
  | .limitNotInteger raw => s!"{StepLimit.envName} must be an integer, got {Text.quote raw}"
  | .limitNotPositive => s!"{StepLimit.envName} must be positive"
  | .failing text => text
  | .unnamed => "stat: path should be string, bytes, os.PathLike or integer, not list"

/-- The budget that the environment sets; an empty text sets none. -/
def StepLimit.read (raw : Option String) : Except LoadError Nat :=
  match raw with
  | none | some "" => .ok StepLimit.default
  | some raw =>
    match Text.readInt? raw with
    | none => .error (.limitNotInteger raw)
    | some n => if n ≤ 0 then .error .limitNotPositive else .ok n.toNat

/-- The subscription of a limiter: the budget is looked at often enough for small ones. -/
def StepLimit.subscription (limit : Nat) : Request × Observer :=
  (.every (min StepLimit.checkEvery limit : Nat), .limiter limit)

namespace Extension

variable {L : Type}

/-- Subscribe listeners in order. -/
def subscribeAll (hooks : Hooks L) : List (Request × L) → Except LoadError (Hooks L)
  | [] => .ok hooks
  | (r, l) :: rest =>
    match hooks.subscribe r l with
    | .ok hooks => subscribeAll hooks rest
    | .error e => .error (.refused e)

/-- Load an extension that was found under a path; `limit` is the budget of the environment. -/
def load (x : Extension L) (path : String) (limit : Option String) (hooks : Hooks L) :
    Except LoadError (Hooks L) :=
  match x with
  | .notModule => .error (.notModule path)
  | .broken text => .error (.broken path text)
  | .inert => .error (.inert path)
  | .failing text => .error (.failing text)
  | .subscribing requests => subscribeAll hooks requests
  | .budgeted requests =>
    match StepLimit.read limit with
    | .ok n => subscribeAll hooks (requests n)
    | .error e => .error e

/-- The extension that dumps the tape when a program ends. -/
def tapeDump : Extension := .subscribing [(.on "program_end", .dumper)]

/-- The extension that stops a program once its budget is spent. -/
def stepLimit : Extension := .budgeted fun limit => [StepLimit.subscription limit]

end Extension

end TapeLang
