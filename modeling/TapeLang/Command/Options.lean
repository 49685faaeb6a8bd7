import TapeLang.Text.Numeral
import TapeLang.Text.Quoted

/-!
# Command line options

A command line holds options and at most one program. An option may be shortened as long as it
stays clear which one is meant, a single-letter option may be followed by another one in the same
argument, and an option that takes a value takes it after an equals sign or from the next argument.
What looks like an option but is none, and every program after the first, is left over and refused
at the end. After two dashes nothing is an option any more.
-/

namespace TapeLang.Command

/-- The options. -/
inductive Flag where
  | help
  | source
  | verbose
  | tracebackJson
  | extension
  | interactive
  deriving DecidableEq, Repr

/-- Every spelling of an option, in the order in which the options are listed. -/
def Flag.spellings : List (String × Flag) :=
  [("-h", .help), ("--help", .help), ("-source", .source), ("--source", .source),
   ("-verbose", .verbose), ("--verbose", .verbose), ("--traceback-json", .tracebackJson),
   ("-ext", .extension), ("--ext", .extension), ("-i", .interactive),
   ("--interactive", .interactive)]

/-- The option of a spelling. -/
def Flag.ofSpelling? (s : String) : Option Flag := Flag.spellings.lookup s

/-- Only an extension is named by a value. -/
def Flag.takesValue (f : Flag) : Bool := f = .extension

/-- How a message names an option: all its spellings. -/
def Flag.title (f : Flag) : String :=
  "/".intercalate ((Flag.spellings.filter fun p => p.2 = f).map Prod.fst)

/-- What a command line asks for. -/
structure Settings where
  program : Option String := none
  /-- The program is given as its text, not as a file. -/
  source : Bool := false
  verbose : Bool := false
  tracebackJson : Bool := false
  interactive : Bool := false
  /-- The paths of the extensions to load, in order; `none` where two dashes stand for one. -/
  extensions : List (Option String) := []
  deriving DecidableEq, Repr

/-- Why a command line is refused. -/
inductive UsageError where
  | ambiguous (arg : String) (spellings : List String)
  | missingValue (f : Flag)
  | ignoredValue (f : Flag) (value : String)
  | unrecognized (args : List String)
  deriving DecidableEq, Repr

/-- The name under which the program is called. -/
def programName : String := "bfln.py"

/-- The short description of the command line. -/
def usage : String :=
  "usage: bfln.py [-h] [-source] [-verbose] [--traceback-json] [-ext PATH] [-i]\n" ++
  "               [program]\n"

/-- The long description of the command line. -/
def help : String :=
  usage ++
  "\nBF-Lang reference interpreter\n" ++
  "\npositional arguments:\n" ++
  "  program               Source file path or literal source with -source\n" ++
  "\noptions:\n" ++
  "  -h, --help            show this help message and exit\n" ++
  "  -source, --source     Treat program argument as literal source text\n" ++
  "  -verbose, --verbose   Show a tape snapshot in tracebacks\n" ++
  "  --traceback-json      Also emit JSON traceback\n" ++
  "  -ext PATH, --ext PATH\n" ++
  "                        Load an extension module (repeatable)\n" ++
  "  -i, --interactive     Start the interactive shell\n" ++
  "\nWithout a program, source piped to stdin is executed; use --interactive for a\n" ++
  "shell.\n"

/-- The wording of a refusal. -/
def UsageError.message : UsageError → String
  | .ambiguous arg spellings =>
    s!"ambiguous option: {arg} could match " ++ ", ".intercalate spellings
  | .missingValue f => s!"argument {f.title}: expected one argument"
  | .ignoredValue f value =>
    s!"argument {f.title}: ignored explicit argument {Text.quote value}"
  | .unrecognized args => "unrecognized arguments: " ++ " ".intercalate args

/-- A refusal as it is shown, below the short description. -/
def UsageError.report (e : UsageError) : String :=
  usage ++ s!"{programName}: error: {e.message}\n"

/-- What an argument is, taken by itself. -/
inductive Part where
  /-- A value: the program, or what an option takes. -/
  | plain (arg : String)
  /-- The two dashes that end the options. -/
  | dashes
  /-- An option as it is spelled in full, with the value that the argument itself holds. -/
  | option (f : Flag) (spelling : String) (value : Option String)
  /-- Something that looks like an option and is none. -/
  | unknown (arg : String)

/-- The part before the first equals sign and, if there is one, the part after it. -/
def splitEquals (arg : String) : String × Option String :=
  let cs := arg.toList
  match cs.dropWhile (· ≠ '=') with
  | [] => (arg, none)
  | _ :: value => (String.ofList (cs.takeWhile (· ≠ '=')), some (String.ofList value))

/-- Digits, or digits around one point with at least one after it. -/
def isDecimal (cs : List Char) : Bool :=
  let isDigit (c : Char) : Bool := (Text.digitValue? c).isSome
  match cs.dropWhile isDigit with
  | [] => !cs.isEmpty
  | '.' :: rest => !rest.isEmpty && rest.all isDigit
  | _ => false

/-- A negative number, which is a value and not an option; a newline may follow it. -/
def isNegative (arg : String) : Bool :=
  match arg.toList with
  | '-' :: cs => isDecimal cs || (cs.getLast? == some '\n' && isDecimal cs.dropLast)
  | _ => false

/-- The options that a shortened spelling may stand for. After two dashes a value may follow an
equals sign; after one dash a single letter may be followed by its value at once. -/
def candidates (arg : String) : List (Flag × String × Option String) :=
  if arg.startsWith "--" then
    let (start, value) := splitEquals arg
    Flag.spellings.filterMap fun (s, f) =>
      if s.startsWith start then some (f, s, value) else none
  else
    Flag.spellings.filterMap fun (s, f) =>
      if s.toList = arg.toList.take 2 then some (f, s, some (String.ofList (arg.toList.drop 2)))
      else if s.startsWith arg then some (f, s, none)
      else none

/-- What an argument is; two dashes are not asked about. -/
def Part.ofArg (arg : String) : Except UsageError Part :=
  if !arg.startsWith "-" then .ok (.plain arg)
  else match Flag.ofSpelling? arg with
    | some f => .ok (.option f arg none)
    | none =>
      if arg = "-" then .ok (.plain arg)
      else
        let (start, value) := splitEquals arg
        match value, Flag.ofSpelling? start with
        | some v, some f => .ok (.option f start (some v))
        | _, _ =>
          match candidates arg with
          | [(f, s, v)] => .ok (.option f s v)
          | [] =>
            if isNegative arg || arg.contains ' ' then .ok (.plain arg) else .ok (.unknown arg)
          | many => .error (.ambiguous arg (many.map fun c => c.2.1))

/-- What the arguments are; after two dashes all are values. -/
def Part.ofArgs : List String → Except UsageError (List Part)
  | [] => .ok []
  | arg :: rest =>
    if arg = "--" then .ok (.dashes :: rest.map .plain)
    else do
      let p ← Part.ofArg arg
      let ps ← Part.ofArgs rest
      return p :: ps

/-- The argument that a part was read from, if it is left over. -/
def Part.text : Part → String
  | .plain arg => arg
  | .dashes => "--"
  | .option _ s _ => s
  | .unknown arg => arg

/-- Why reading ends early: a request for help or a refusal. -/
inductive Early where
  | help
  | refused (e : UsageError)
  deriving DecidableEq, Repr

/-- Reading in progress. -/
structure Reading where
  settings : Settings := {}
  /-- The program has been given. -/
  taken : Bool := false
  /-- What is left over, the last argument first. -/
  left : List String := []

/-- Note an option that takes no value. -/
def Reading.switch (r : Reading) : Flag → Except Early Reading
  | .help => .error .help
  | .source => .ok { r with settings := { r.settings with source := true } }
  | .verbose => .ok { r with settings := { r.settings with verbose := true } }
  | .tracebackJson => .ok { r with settings := { r.settings with tracebackJson := true } }
  | .interactive => .ok { r with settings := { r.settings with interactive := true } }
  | .extension => .ok r

/-- Note an extension. Two dashes are dropped wherever a value may stand, and leave no path. -/
def Reading.extend (r : Reading) (value : String) : Reading :=
  let path := if value = "--" then none else some value
  { r with settings := { r.settings with extensions := r.settings.extensions ++ [path] } }

/-- The options that share one argument: the first one and, in `value`, the letters of the others.
The letters must all be options before any of the options counts. -/
def cluster (f : Flag) : List Char → Except Early (List Flag)
  | [] => .ok [f]
  | c :: cs =>
    match Flag.ofSpelling? (String.ofList ['-', c]) with
    | some g => do
      let fs ← cluster g cs
      return f :: fs
    | none => .error (.refused (.ignoredValue f (String.ofList (c :: cs))))

/-- Note an option that holds a value of its own. -/
def Reading.withValue (r : Reading) (f : Flag) (spelling value : String) : Except Early Reading :=
  if f.takesValue then .ok (r.extend value)
  else if spelling.startsWith "--" || value.isEmpty then
    .error (.refused (.ignoredValue f value))
  else do
    let fs ← cluster f value.toList
    fs.foldlM Reading.switch r

/-- Leave an argument over. -/
def Reading.leave (r : Reading) (p : Part) : Reading := { r with left := p.text :: r.left }

/-- Take a value as the program. -/
def Reading.take (r : Reading) (arg : String) : Reading :=
  { r with settings := { r.settings with program := some arg }, taken := true }

/-- Read arguments from left to right. The two dashes go together with the program, before or after
it, and are left over when the program was given earlier. -/
def Reading.over (r : Reading) : List Part → Except Early Reading
  | [] => .ok r
  | .option f s (some v) :: rest => do (← r.withValue f s v).over rest
  | .option f _ none :: rest =>
    if f.takesValue then
      match rest with
      | .plain arg :: rest => (r.extend arg).over rest
      | _ => .error (.refused (.missingValue f))
    else do (← r.switch f).over rest
  | .unknown arg :: rest => (r.leave (.unknown arg)).over rest
  | .plain arg :: .dashes :: rest =>
    if r.taken then ((r.leave (.plain arg)).leave .dashes).over rest else (r.take arg).over rest
  | .plain arg :: rest =>
    if r.taken then (r.leave (.plain arg)).over rest else (r.take arg).over rest
  | .dashes :: .plain arg :: rest =>
    if r.taken then ((r.leave .dashes).leave (.plain arg)).over rest else (r.take arg).over rest
  | .dashes :: rest => if r.taken then (r.leave .dashes).over rest else r.over rest

/-- What a command line asks for. -/
def Settings.ofArgs (args : List String) : Except Early Settings :=
  match Part.ofArgs args with
  | .error e => .error (.refused e)
  | .ok parts =>
    match Reading.over {} parts with
    | .error e => .error e
    | .ok r =>
      if r.left.isEmpty then .ok r.settings
      else .error (.refused (.unrecognized r.left.reverse))

end TapeLang.Command
