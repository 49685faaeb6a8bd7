import TapeLang.Interp
import TapeLang.Json
import TapeLang.Tape.View

/-!
# Tracebacks

A fault is explained by the frames of the call stack, the outermost first, by the number of
instructions that had been started, and on request by a snapshot of the tape. The same facts are
told in two forms, as lines of text and as a JSON document.
-/

namespace TapeLang

variable {L : Type}

/-- The lines about one frame: its place, and what is written there. -/
def Frame.lines (f : Frame) : List String :=
  match f.position with
  | none => [s!"  <unknown location> in {f.name}"]
  | some l =>
    let place := s!"  File \"{l.file}\", line {l.line}, column {l.column}, in {f.name}"
    if l.statement.isEmpty then [place] else [place, s!"    {l.statement}"]

/-- The snapshot that tracebacks show. -/
def Interp.snapshot (s : Interp L) : Option Tape.Snapshot :=
  s.tape.map fun t => t.snapshot Tape.usualRadius

/-- The rule that a traceback names. -/
def Fault.ruleName (f : Fault) : String :=
  match f.rule with
  | none => "runtime"
  | some r => if r.isEmpty then "runtime" else r

/-- The lines of a traceback; `verbose` asks for the tape as well. -/
def Interp.tracebackLines (s : Interp L) (f : Fault) (verbose : Bool) : List String :=
  let step := match f.step with
    | some n => [s!"  Instructions executed: {n}"]
    | none => []
  let tape := match s.snapshot with
    | some t =>
      if verbose then
        [s!"  Tape snapshot: pointer={t.pointer}, cell={t.cell}, window={t.window}"]
      else []
    | none => []
  "Traceback (most recent call last):" :: s.stack.reverse.flatMap Frame.lines ++ step ++ tape
    ++ [s!"{f.kind}: {f.message} (rule: {f.ruleName})"]

/-- A traceback as text. -/
def Interp.traceback (s : Interp L) (f : Fault) (verbose : Bool) : String :=
  "\n".intercalate (s.tracebackLines f verbose)

/-- A value that may be missing. -/
def Json.ofOption {α : Type} (f : α → Json) : Option α → Json
  | some a => f a
  | none => .null

/-- A place as a record. -/
def Location.toJson (l : Location) : Json :=
  .record [("file", .text l.file), ("line", .number l.line), ("column", .number l.column),
    ("statement", .text l.statement)]

/-- A frame as a record; one whose place is unknown has no field for it. -/
def Frame.toJson (f : Frame) (depth : Nat) : Json :=
  .record <| [("depth", .number depth), ("name", .text f.name),
      ("instruction", Json.ofOption (fun n => .text n.symbol) f.current)]
    ++ match f.position with
      | some l => [("source_location", l.toJson)]
      | none => []

/-- A snapshot as a record. -/
def Tape.Snapshot.toJson (t : Tape.Snapshot) : Json :=
  .record [("pointer", .text t.pointer), ("cell", .text t.cell), ("window", .text t.window)]

/-- A fault as a record. -/
def Fault.toJson (f : Fault) : Json :=
  .record [("type", .text f.kind), ("message", .text f.message),
    ("rule", Json.ofOption .text f.rule), ("step", Json.ofOption (fun n => .number n) f.step)]

/-- A traceback as a JSON document. -/
def Interp.tracebackJson (s : Interp L) (f : Fault) : Json :=
  .record [("error", f.toJson),
    ("traceback", .list (s.stack.reverse.zipIdx.map fun (frame, depth) => frame.toJson depth)),
    ("tape", Json.ofOption Tape.Snapshot.toJson s.snapshot)]

end TapeLang
