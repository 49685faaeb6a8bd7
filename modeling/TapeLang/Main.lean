import TapeLang.Command
import TapeLang.Extension.Catalogue

/-!
# The program

The outer layer of the command line: it fetches what a command needs from the system, lets the
library decide, and writes what comes of it. At a terminal the shell answers line by line.
-/

namespace TapeLang.Main

open Command

/-- How many steps of execution a command may take, which no machine will reach. -/
def allotted : Nat := Nat.pow 2 62

/-- The error behind a number of the system, which may come with its sign turned. -/
def errorOf (code : UInt32) : FileError :=
  let code := if code < 0x80000000 then code else 0 - code
  if code = 20 then .notDirectory
  else if code = 21 then .isDirectory
  else if code = 36 then .nameTooLong
  else .missing

/-- Look for the file of a path; a file of the catalogue loads as the catalogue says. -/
def fetch (path : String) : IO (Except FileError File) := do
  let name := ((Text.PathName.names path).getLast?).getD ""
  let extension := (Extension.catalogue.lookup name).getD .notModule
  try
    let bytes ← IO.FS.readBinFile path
    return .ok { bytes := bytes.toList, extension }
  catch e =>
    return .error <| match e with
      | .noFileOrDirectory _ code _ => errorOf code
      | .inappropriateType _ code _ => errorOf code
      | .invalidArgument _ code _ => errorOf code
      | _ => .missing

/-- Write what has been written so far. -/
def flush (c : Console) : IO Unit := do
  let out ← IO.getStdout
  out.putStr c.out
  out.flush
  (← IO.getStderr).putStr c.err

/-- Write what a command has written, and give its status. -/
def finish (t : Transcript) : IO UInt32 := do
  flush t.console
  match t.ending with
  | .status code => return UInt32.ofNat (code % 256).toNat
  | .escaped e =>
    (← IO.getStderr).putStrLn e.message
    return 1
  | .unfinished => return 1

/-- The shell at a terminal. -/
partial def converse (input : IO.FS.Stream) (s : Shell) : IO UInt32 := do
  let s := s.prompt
  flush s.console
  let s := { s with console := {} }
  let line ← input.getLine
  if line.isEmpty then finish s.close
  else
    let line := if line.endsWith "\n" then line.dropEnd 1 |>.toString else line
    match s.read allotted line with
    | .stay s => converse input s
    | .leave t => finish t

end TapeLang.Main

open TapeLang TapeLang.Command TapeLang.Main in
/-- The command line of the interpreter. -/
def main (args : List String) : IO UInt32 := do
  let input ← IO.getStdin
  let settings := (Settings.ofArgs args).toOption.getD {}
  let mut found : List (String × Except FileError File) := []
  for path in settings.extensions.filterMap id ++ settings.program.toList do
    found := (path, ← fetch path) :: found
  let atTerminal ← input.isTty
  let reads := settings.interactive || settings.program.isNone
  let bytes ← if atTerminal || !reads then pure [] else do
    pure (← input.readBinToEnd).toList
  let surroundings : Surroundings := {
    directory := (← IO.currentDir).toString
    find := fun path => (found.lookup path).getD (.error .missing)
    input := if atTerminal then .terminal bytes else .piped bytes
    limit := ← IO.getEnv StepLimit.envName }
  if settings.interactive && atTerminal then
    match loadAll surroundings #[] settings.extensions with
    | .ok hooks => converse input (Shell.greet settings.verbose hooks)
    | .error _ => finish (run allotted surroundings args)
  else finish (run allotted surroundings args)
