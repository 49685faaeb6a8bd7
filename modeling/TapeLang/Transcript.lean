import TapeLang.Extension
import TapeLang.Interp.Run
import TapeLang.Text.Utf8

/-!
# Transcripts

What a command leaves behind: the two texts that it writes, one for results and one for diagnostics,
and how it ends.
-/

namespace TapeLang

/-- Something that ends a command and that no part of the command reports. -/
inductive Escape where
  /-- An interrupt in the interactive shell. -/
  | interrupt (text : String)
  /-- A listener quit. -/
  | quit (kind text : String)
  /-- A failure that did not become a fault. -/
  | failure (f : Failure)
  /-- An extension was not loaded for a reason that nobody reports. -/
  | loading (e : LoadError)
  /-- A path holds a null character. -/
  | nullInPath
  /-- The interactive shell has no input. -/
  | noInput
  /-- The input of the interactive shell is no text. -/
  | undecodable (e : Text.Utf8.DecodeError)
  deriving DecidableEq, Repr

/-- The wording of what escapes. -/
def Escape.message : Escape → String
  | .interrupt text => text
  | .quit _ text => text
  | .failure f => f.text
  | .loading e => e.message
  | .nullInPath => "embedded null byte"
  | .noInput => "input(): lost sys.stdin"
  | .undecodable e => e.message

/-- How a command ends. -/
inductive Ending where
  | status (code : Int)
  | escaped (e : Escape)
  /-- The allotted number of steps was too small. -/
  | unfinished
  deriving DecidableEq, Repr

/-- The two texts that a command writes. -/
structure Console where
  out : String := ""
  err : String := ""
  deriving DecidableEq, Repr

/-- A command from start to end. -/
structure Transcript where
  console : Console
  ending : Ending
  deriving DecidableEq, Repr

/-- The reports of the listeners of a run, each on a line of its own. -/
def Interp.reported {L : Type} (s : Interp L) : String :=
  String.join (s.reports.toList.map (· ++ "\n"))

namespace Console

/-- Write to the results. -/
def print (c : Console) (text : String) : Console := { c with out := c.out ++ text }

/-- Write a line to the diagnostics. -/
def complain (c : Console) (line : String) : Console := { c with err := c.err ++ line ++ "\n" }

/-- Write what a run has written: its output, and the reports of its listeners. -/
def absorb {L : Type} (c : Console) (s : Interp L) : Console :=
  s.reports.foldl complain (c.print s.sink.text)

/-- The output goes to the results and the reports go to the diagnostics. -/
theorem absorb_eq {L : Type} (c : Console) (s : Interp L) :
    c.absorb s = ⟨c.out ++ s.sink.text, c.err ++ s.reported⟩ := by
  have hfold : ∀ (lines : List String) (c : Console),
      lines.foldl complain c = ⟨c.out, c.err ++ String.join (lines.map (· ++ "\n"))⟩ := by
    intro lines
    induction lines with
    | nil => simp
    | cons line rest ih => intro c; simp [ih, complain, String.append_assoc]
  rw [absorb, ← Array.foldl_toList, hfold]
  rfl

/-- End with a status. -/
def exit (c : Console) (code : Int) : Transcript := ⟨c, .status code⟩

end Console

end TapeLang
