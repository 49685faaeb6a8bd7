import TapeLang.Proofs.Decoding
import TapeLang.Traceback

/-!
# What a traceback tells

A traceback tells of the fault, of the frames from the outermost to the innermost, and of the tape.
All of it can be read back from the JSON form, whatever characters there are in its texts. The lines
of the other form follow from what is read there and from nothing else, so that the two forms never
tell different stories.
-/

namespace TapeLang

variable {L α : Type}

namespace Json

/-- The value of a field of a record. -/
def field? (key : String) : Json → Option Json
  | .record fs => fs.lookup key
  | _ => none

/-- A field that a record has to have. -/
def fieldAs? (key : String) (value? : Json → Option α) (j : Json) : Option α :=
  (j.field? key).bind value?

/-- A field that a record may lack. -/
def fieldIfAny? (key : String) (value? : Json → Option α) (j : Json) : Option (Option α) :=
  match j.field? key with
  | none => some none
  | some j => (value? j).map some

/-- The characters of a text. -/
def text? : Json → Option String
  | .text s => some s
  | _ => none

/-- A number. -/
def number? : Json → Option Int
  | .number n => some n
  | _ => none

/-- A number that is not negative. -/
def count? : Json → Option Nat
  | .number (.ofNat n) => some n
  | _ => none

/-- The items of a list, all of one kind. -/
def list? (item? : Json → Option α) : Json → Option (List α)
  | .list xs => xs.mapM item?
  | _ => none

/-- What there is, unless it is null. -/
def nullable? (value? : Json → Option α) : Json → Option (Option α)
  | .null => some none
  | j => (value? j).map some

end Json

open Json

/-- A place, read from a record. -/
def Location.ofJson? (j : Json) : Option Location := do
  let file ← j.fieldAs? "file" text?
  let line ← j.fieldAs? "line" number?
  let column ← j.fieldAs? "column" number?
  let statement ← j.fieldAs? "statement" text?
  return { file, line, column, statement }

/-- A snapshot, read from a record. -/
def Tape.Snapshot.ofJson? (j : Json) : Option Tape.Snapshot := do
  let pointer ← j.fieldAs? "pointer" text?
  let cell ← j.fieldAs? "cell" text?
  let window ← j.fieldAs? "window" text?
  return { pointer, cell, window }

/-- A frame as a traceback tells of it. -/
structure Story.Entry where
  /-- How many frames are around it. -/
  depth : Nat
  name : String
  /-- The symbol of the instruction that it is on, if there is one. -/
  instruction : Option String
  place : Option Location

/-- A frame, read from a record; one without a field for its place has none. -/
def Story.Entry.ofJson? (j : Json) : Option Story.Entry := do
  let depth ← j.fieldAs? "depth" count?
  let name ← j.fieldAs? "name" text?
  let instruction ← j.fieldAs? "instruction" (nullable? text?)
  let place ← j.fieldIfAny? "source_location" Location.ofJson?
  return { depth, name, instruction, place }

/-- All that a traceback tells. -/
structure Story where
  kind : String
  message : String
  rule : Option String
  step : Option Nat
  /-- The outermost frame first. -/
  entries : List Story.Entry
  tape : Option Tape.Snapshot

/-- A story, read from a document. -/
def Story.ofJson? (j : Json) : Option Story := do
  let error ← j.field? "error"
  let kind ← error.fieldAs? "type" text?
  let message ← error.fieldAs? "message" text?
  let rule ← error.fieldAs? "rule" (nullable? text?)
  let step ← error.fieldAs? "step" (nullable? count?)
  let entries ← j.fieldAs? "traceback" (list? Story.Entry.ofJson?)
  let tape ← j.fieldAs? "tape" (nullable? Tape.Snapshot.ofJson?)
  return { kind, message, rule, step, entries, tape }

/-! ## Reading the JSON form -/

/-- What there is to tell of a frame. -/
def Frame.entry (f : Frame) (depth : Nat) : Story.Entry where
  depth := depth
  name := f.name
  instruction := f.current.map Node.symbol
  place := f.position

/-- What there is to tell of a fault, seen from an interpreter. -/
def Interp.story (s : Interp L) (f : Fault) : Story where
  kind := f.kind
  message := f.message
  rule := f.rule
  step := f.step
  entries := s.stack.reverse.mapIdx fun depth frame => frame.entry depth
  tape := s.snapshot

/-- Items are read back when each of them is. -/
theorem list?_map {β : Type} {item? : Json → Option β} {toJson : α → Json} {f : α → β}
    (h : ∀ a, item? (toJson a) = some (f a)) (as : List α) :
    list? item? (.list (as.map toJson)) = some (as.map f) := by
  induction as with
  | nil => rfl
  | cons a as ih =>
    rw [list?] at ih ⊢
    rw [List.map_cons, List.mapM_cons, h a, ih]
    rfl

theorem Location.ofJson?_toJson (l : Location) : Location.ofJson? l.toJson = some l := rfl

theorem Tape.Snapshot.ofJson?_toJson (t : Tape.Snapshot) :
    Tape.Snapshot.ofJson? t.toJson = some t := rfl

theorem Story.Entry.ofJson?_toJson (f : Frame) (depth : Nat) :
    Story.Entry.ofJson? (f.toJson depth) = some (f.entry depth) := by
  have hdepth : (f.toJson depth).fieldAs? "depth" count? = some depth := rfl
  have hname : (f.toJson depth).fieldAs? "name" text? = some f.name := rfl
  have hinstruction : (f.toJson depth).fieldAs? "instruction" (nullable? text?) =
      some (f.current.map Node.symbol) := by
    rw [Frame.toJson]
    cases f.current <;> rfl
  have hplace : (f.toJson depth).fieldIfAny? "source_location" Location.ofJson? =
      some f.position := by
    rw [Frame.toJson]
    cases f.position <;> rfl
  simp only [Story.Entry.ofJson?, hdepth, hname, hinstruction, hplace]
  rfl

/-- The JSON form of a traceback tells all that there is to tell. -/
theorem Story.ofJson?_tracebackJson (s : Interp L) (f : Fault) :
    Story.ofJson? (s.tracebackJson f) = some (s.story f) := by
  have herror : (s.tracebackJson f).field? "error" = some f.toJson := rfl
  have hkind : f.toJson.fieldAs? "type" text? = some f.kind := rfl
  have hmessage : f.toJson.fieldAs? "message" text? = some f.message := rfl
  have hrule : f.toJson.fieldAs? "rule" (nullable? text?) = some f.rule := by
    rw [Fault.toJson]
    cases f.rule <;> rfl
  have hstep : f.toJson.fieldAs? "step" (nullable? count?) = some f.step := by
    rw [Fault.toJson]
    cases f.step <;> rfl
  have hentries : (s.tracebackJson f).fieldAs? "traceback" (list? Story.Entry.ofJson?) =
      some (s.story f).entries := by
    rw [Interp.story, List.mapIdx_eq_zipIdx_map]
    exact list?_map (fun _ => Story.Entry.ofJson?_toJson _ _) _
  have htape : (s.tracebackJson f).fieldAs? "tape" (nullable? Tape.Snapshot.ofJson?) =
      some s.snapshot := by
    rw [Interp.tracebackJson]
    cases s.snapshot <;> rfl
  simp only [Story.ofJson?, herror, hentries, htape, Option.bind_eq_bind, Option.bind_some, hkind,
    hmessage, hrule, hstep]
  rfl

/-- What is read from the written document is all that there is to tell. -/
theorem Interp.decode_tracebackJson (s : Interp L) (f : Fault) :
    (decode (s.tracebackJson f).render).bind Story.ofJson? = some (s.story f) := by
  rw [decode_render, Option.bind_some, Story.ofJson?_tracebackJson]

/-- The lines about one frame. -/
def Story.Entry.lines (entry : Story.Entry) : List String :=
  match entry.place with
  | none => [s!"  <unknown location> in {entry.name}"]
  | some l =>
    s!"  File \"{l.file}\", line {l.line}, column {l.column}, in {entry.name}"
      :: if l.statement = "" then [] else [s!"    {l.statement}"]

/-- The rule that a story names: an empty one counts as none. -/
def Story.ruleName (story : Story) : String :=
  if story.rule = none ∨ story.rule = some "" then "runtime" else story.rule.getD ""

/-- The lines of a story; `verbose` asks for the tape as well. -/
def Story.lines (story : Story) (verbose : Bool) : List String :=
  ["Traceback (most recent call last):"]
    ++ story.entries.flatMap Story.Entry.lines
    ++ story.step.toList.map (fun n => s!"  Instructions executed: {n}")
    ++ (if verbose then story.tape.toList else []).map (fun t =>
      s!"  Tape snapshot: pointer={t.pointer}, cell={t.cell}, window={t.window}")
    ++ [s!"{story.kind}: {story.message} (rule: {story.ruleName})"]

/-- A story as text. -/
def Story.tell (story : Story) (verbose : Bool) : String :=
  "\n".intercalate (story.lines verbose)

theorem Frame.lines_entry (f : Frame) (depth : Nat) : (f.entry depth).lines = f.lines := by
  rw [Frame.lines, Story.Entry.lines, Frame.entry]
  cases f.position with
  | none => rfl
  | some l => by_cases hstatement : l.statement = "" <;> simp [hstatement]

theorem Interp.ruleName_story (s : Interp L) (f : Fault) : (s.story f).ruleName = f.ruleName := by
  rw [Story.ruleName, Fault.ruleName]
  cases hrule : f.rule with
  | none => simp [Interp.story, hrule]
  | some r => by_cases hr : r = "" <;> simp [Interp.story, hrule, hr]

/-- The text form tells the story, line by line. -/
theorem Interp.tell_story (s : Interp L) (f : Fault) (verbose : Bool) :
    (s.story f).tell verbose = s.traceback f verbose := by
  have hframes : (s.story f).entries.flatMap Story.Entry.lines =
      s.stack.reverse.flatMap Frame.lines := by
    rw [Interp.story, List.mapIdx_eq_zipIdx_map, List.flatMap_map]
    simp only [Frame.lines_entry]
    rw [← List.flatMap_map Prod.fst, List.zipIdx_map_fst]
  rw [Story.tell, Interp.traceback, Story.lines, Interp.tracebackLines, hframes, s.ruleName_story]
  show "\n".intercalate (_ ++ f.step.toList.map _
    ++ (if verbose then s.snapshot.toList else []).map _ ++ _) = _
  cases f.step <;> cases s.snapshot <;> cases verbose <;> rfl

/-- The text form of a traceback is what the JSON form says, told in lines. -/
theorem Interp.traceback_eq_tell (s : Interp L) (f : Fault) (verbose : Bool) :
    ((decode (s.tracebackJson f).render).bind Story.ofJson?).map (fun story => story.tell verbose) =
      some (s.traceback f verbose) := by
  rw [s.decode_tracebackJson f, Option.map_some, s.tell_story f verbose]

end TapeLang
