import TapeLang.Command
import TapeLang.Proofs.Encodings
import TapeLang.Proofs.Layout

/-!
# The three ways to give a program

A command takes its program from its argument, from a file, or from piped input. The three texts
that are run differ: the argument is a text as it is, a file is decoded and its newlines are made
plain, and of piped input every byte is a character. But they have the same code, so they run alike.
What is said about places goes to the diagnostics. The results and the way in which the command ends
are the same.
-/

namespace TapeLang

/-! ## Limits -/

/-- A limiter counts, and asks for no places. -/
theorem Observer.placeless_limiter (limit : Nat) : Listener.Placeless (limiter limit) where
  react := by
    intro k n n' c c' hn _
    cases hn <;> rfl
  alone := by
    intro k n c r l' h
    have hreact : Action.subscribe r l' ∈ Observer.react n c (limiter limit) := h
    cases n with
    | tick count =>
      simp only [Observer.react] at hreact
      split at hreact <;> simp at hreact
    | _ => exact absurd hreact List.not_mem_nil

namespace Command

/-- Every extension that is named is the one that limits the number of statements. -/
def Surroundings.OnlyLimits (w : Surroundings) (paths : List (Option String)) : Prop :=
  ∀ path ∈ paths, ∃ name file, path = some name ∧ w.find name = .ok file ∧
    file.extension = .stepLimit

variable {w w' : Surroundings} {paths paths' : List (Option String)}

/-- Loading a limit looks at the environment alone, whatever the name of its file. -/
theorem loadAll_cons {path : Option String} (h : w.OnlyLimits (path :: paths)) (name : String)
    (hooks : Hooks Observer) :
    loadAll w hooks (path :: paths) =
      match Extension.stepLimit.load name w.limit hooks with
      | .ok hooks => loadAll w hooks paths
      | .error e => .error e := by
  obtain ⟨own, file, rfl, hfind, hlimit⟩ := h path List.mem_cons_self
  have hload : Extension.stepLimit.load own w.limit hooks =
      Extension.stepLimit.load name w.limit hooks := rfl
  rw [loadAll]
  simp only [hfind, hlimit, hload]
  cases Extension.stepLimit.load name w.limit hooks <;> rfl

theorem Surroundings.OnlyLimits.tail {path : Option String} (h : w.OnlyLimits (path :: paths)) :
    w.OnlyLimits paths := fun p hp => h p (List.mem_cons_of_mem _ hp)

/-- As many limits are loaded alike, wherever their files lie. -/
theorem loadAll_congr (h : w.OnlyLimits paths) (h' : w'.OnlyLimits paths')
    (count : paths.length = paths'.length) (limit : w.limit = w'.limit)
    (hooks : Hooks Observer) : loadAll w hooks paths = loadAll w' hooks paths' := by
  induction paths generalizing paths' hooks with
  | nil =>
    obtain rfl : paths' = [] := List.length_eq_zero_iff.1 count.symm
    rfl
  | cons path paths ih =>
    cases paths' with
    | nil => cases count
    | cons path' paths' =>
      have hrest := ih h.tail h'.tail (Nat.succ.inj count)
      simp only [loadAll_cons h "", loadAll_cons h' "", limit, hrest]

/-- A limit adds a limiter. -/
theorem eq_push_of_load {name : String} {limit : Option String} {hooks hooks' : Hooks Observer}
    (h : Extension.stepLimit.load name limit hooks = .ok hooks') :
    ∃ tr n, hooks' = hooks.push ⟨tr, .limiter n, 0⟩ := by
  simp only [Extension.stepLimit, Extension.load] at h
  split at h
  · simp only [Extension.subscribeAll, StepLimit.subscription, Hooks.subscribe] at h
    split at h
    · next he =>
      split at he
      · cases he
        cases h
        exact ⟨_, _, rfl⟩
      · cases he
    · cases h
  · cases h

/-- No limit asks for places. -/
theorem placeless_of_loadAll (h : w.OnlyLimits paths) {hooks hooks' : Hooks Observer}
    (hh : hooks.Placeless) (hload : loadAll w hooks paths = .ok hooks') : hooks'.Placeless := by
  induction paths generalizing hooks with
  | nil =>
    cases hload
    exact hh
  | cons path paths ih =>
    rw [loadAll_cons h ""] at hload
    split at hload
    · next hlimit =>
      obtain ⟨tr, n, rfl⟩ := eq_push_of_load hlimit
      refine ih h.tail (fun sub hsub => ?_) hload
      rcases Array.mem_push.1 hsub with hsub | rfl
      · exact hh sub hsub
      · exact Observer.placeless_limiter n
    · cases hload

/-! ## Texts -/

/-- A command is given a text: as its argument, as the bytes of a file, or as the bytes of its
piped input. -/
inductive Settings.Gives (s : Settings) (w : Surroundings) (text : String) : Prop where
  | argument (literal : s.source = true) (program : s.program = some text)
  | file {path : String} {file : File} (literal : s.source = false)
      (program : s.program = some path) (proper : path.contains '\x00' = false)
      (found : w.find path = .ok file) (bytes : file.bytes = text.toUTF8.data.toList)
  | pipe (literal : s.source = false) (program : s.program = none)
      (bytes : w.input = .piped text.toUTF8.data.toList)

/-- What is read has the instruction characters of the text that was given. -/
theorem Settings.Gives.exists_readProgram {s : Settings} {text : String} (h : s.Gives w text) :
    ∃ read name, readProgram w s = .ok (read, name) ∧
      read.toList.filter Text.isInstruction = text.toList.filter Text.isInstruction := by
  cases h with
  | argument literal program =>
    refine ⟨text, "<string>", ?_, rfl⟩
    simp only [readProgram, program, literal, if_true]
  | @file path _ literal program proper found bytes =>
    refine ⟨String.ofList (Text.plainNewlines text.toList), path, ?_, ?_⟩
    · simp only [readProgram, program, literal, proper, found, bytes, Text.Utf8.decode_toUTF8,
        Bool.false_eq_true, if_false]
    · rw [String.toList_ofList, Text.filter_plainNewlines]
  | pipe literal program bytes =>
    refine ⟨String.ofList (text.toUTF8.data.toList.map fun b => Char.ofNat b.toNat), "<stdin>",
      ?_, ?_⟩
    · simp only [readProgram, program, literal, bytes, Bool.false_eq_true, if_false]
    · rw [String.toList_ofList, Text.Utf8.filter_toUTF8]

/-! ## Commands -/

/-- Two transcripts have the same results and end the same way. -/
structure Same (t u : Transcript) : Prop where
  out : t.console.out = u.console.out
  ending : t.ending = u.ending

/-- Programs of the same code are reported on with the same results and the same status. -/
theorem execute_same {i j : Interp Observer} (h : i.Unplaced j)
    (code : i.source.toList.filter Text.isInstruction = j.source.toList.filter Text.isInstruction)
    (s s' : Settings) (fuel : Nat) : Same (execute fuel i s) (execute fuel j s') := by
  have hrun := h.run (by rw [Text.map_fst_code, Text.map_fst_code, code]) Tape.fresh fuel
  have hout : ∀ {u v : Interp Observer}, u.Relaid v →
      (Console.absorb {} u).out = (Console.absorb {} v).out := by
    intro u v huv
    rw [Console.absorb_eq, Console.absorb_eq, huv.sink]
  rw [execute, execute]
  generalize i.run fuel Tape.fresh = v at hrun ⊢
  generalize j.run fuel Tape.fresh = w at hrun ⊢
  cases hrun with
  | unparsed => exact ⟨rfl, rfl⟩
  | finished states => exact ⟨hout states, rfl⟩
  | unfinished states => exact ⟨hout states, rfl⟩
  | stopped stops states =>
    cases stops with
    | fault =>
      refine ⟨?_, rfl⟩
      simp only
      split <;> split <;> exact hout states
    | failure f => exact ⟨hout states, rfl⟩
    | exit code => exact ⟨hout states, rfl⟩
    | interrupt text => exact ⟨hout states, rfl⟩
    | quit kind text => exact ⟨hout states, rfl⟩

/-- A command that is given a text to run and loads no extensions but limits. -/
structure Delivery (text : String) where
  around : Surroundings
  args : List String
  settings : Settings
  understood : Settings.ofArgs args = .ok settings
  batch : settings.interactive = false
  limits : around.OnlyLimits settings.extensions
  given : settings.Gives around text

/-- However a text is given to a command, as its argument, in a file or through a pipe, with as many
limits from the same environment the command writes the same results and ends the same way, after
any number of steps. Switches for the diagnostics may be set as one likes. -/
theorem run_same_however_given {text : String} (d e : Delivery text)
    (count : d.settings.extensions.length = e.settings.extensions.length)
    (limit : d.around.limit = e.around.limit) (fuel : Nat) :
    Same (run fuel d.around d.args) (run fuel e.around e.args) := by
  have hload := loadAll_congr d.limits e.limits count limit #[]
  obtain ⟨read, name, hread, hcode⟩ := d.given.exists_readProgram
  obtain ⟨read', name', hread', hcode'⟩ := e.given.exists_readProgram
  simp only [run, d.understood, e.understood, ← hload, d.batch, e.batch, hread, hread',
    Bool.false_eq_true, if_false]
  cases hhooks : loadAll d.around #[] d.settings.extensions with
  | error err => exact ⟨rfl, rfl⟩
  | ok hooks =>
    have hplaceless := placeless_of_loadAll d.limits Hooks.placeless_empty hhooks
    have hstart : ∀ file file' : String,
        Interp.Unplaced { source := read, file, hooks } { source := read', file := file', hooks } :=
      fun _ _ => ⟨⟨rfl, .nil, rfl, rfl, .nil, rfl, rfl, rfl⟩, hplaceless⟩
    exact execute_same (hstart _ _) (hcode.trans hcode'.symm) _ _ fuel

/-! ## Arguments -/

theorem Part.ofArg_plain {arg : String} (h : arg.startsWith "-" = false) :
    Part.ofArg arg = .ok (.plain arg) := by
  rw [Part.ofArg, h]
  rfl

/-- An option that is spelled in full is taken for what it is. -/
theorem Part.ofArg_spelling {arg : String} {f : Flag} (h : arg.startsWith "-" = true)
    (hf : Flag.ofSpelling? arg = some f) : Part.ofArg arg = .ok (.option f arg none) := by
  rw [Part.ofArg, h, hf]
  rfl

/-- What does not look like an option is no end of the options either. -/
theorem Part.ofArgs_plain {arg : String} (h : arg.startsWith "-" = false) (rest : List String) :
    Part.ofArgs (arg :: rest) = (Part.ofArgs rest).map (.plain arg :: ·) := by
  have hne : arg ≠ "--" := by
    rintro rfl
    have hdash : "--".startsWith "-" = true := by simp
    rw [hdash] at h
    cases h
  rw [Part.ofArgs, if_neg hne, Part.ofArg_plain h]
  cases Part.ofArgs rest <;> rfl

theorem Part.ofArgs_spelling {arg : String} {f : Flag} (h : arg.startsWith "-" = true)
    (hf : Flag.ofSpelling? arg = some f) (rest : List String) :
    Part.ofArgs (arg :: rest) = (Part.ofArgs rest).map (.option f arg none :: ·) := by
  have hne : arg ≠ "--" := by
    rintro rfl
    cases (show Flag.ofSpelling? "--" = none by decide).symm.trans hf
  rw [Part.ofArgs, if_neg hne, Part.ofArg_spelling h hf]
  cases Part.ofArgs rest <;> rfl

theorem Part.ofArgs_ext (rest : List String) :
    Part.ofArgs ("--ext" :: rest) = (Part.ofArgs rest).map (.option .extension "--ext" none :: ·) :=
  ofArgs_spelling (by simp) (by decide) rest

theorem Part.ofArgs_source (rest : List String) :
    Part.ofArgs ("--source" :: rest) =
      (Part.ofArgs rest).map (.option .source "--source" none :: ·) :=
  ofArgs_spelling (by simp) (by decide) rest

/-- Under a limit, `+é.` and a line break are run alike from the argument, from a file and from a
pipe. -/
theorem run_same_however_given_accented :
    let bytes : List UInt8 := [0x2B, 0xC3, 0xA9, 0x2E, 0x0D, 0x0A]
    let w : Surroundings :=
      { directory := "/d"
        find := fun path => if path = "p" then .ok { bytes } else .ok { extension := .stepLimit }
        input := .piped bytes }
    let argument := run 9 w ["--ext", "l", "--source", "+é.\r\n"]
    Same argument (run 9 w ["--ext", "l", "p"]) ∧ Same argument (run 9 w ["--ext", "l"]) := by
  intro bytes w argument
  have hbytes : bytes = "+é.\r\n".toUTF8.data.toList := by decide
  have hext := Part.ofArgs_spelling (show "--ext".startsWith "-" = true by simp)
    (show Flag.ofSpelling? "--ext" = some .extension by decide)
  have hsource := Part.ofArgs_spelling (show "--source".startsWith "-" = true by simp)
    (show Flag.ofSpelling? "--source" = some .source by decide)
  have hlimit := Part.ofArgs_plain (show "l".startsWith "-" = false by simp)
  have hpath := Part.ofArgs_plain (show "p".startsWith "-" = false by simp)
  have htext := Part.ofArgs_plain (show "+é.\r\n".startsWith "-" = false by simp)
  have hlimits : w.OnlyLimits [some "l"] := fun path h =>
    ⟨"l", _, List.mem_singleton.1 h, rfl, rfl⟩
  let viaArgument : Delivery "+é.\r\n" :=
    { around := w
      args := ["--ext", "l", "--source", "+é.\r\n"]
      settings := { program := some "+é.\r\n", source := true, extensions := [some "l"] }
      understood := by
        simp only [Settings.ofArgs, hext, hlimit, hsource, htext]
        rfl
      batch := rfl
      limits := hlimits
      given := .argument rfl rfl }
  let viaFile : Delivery "+é.\r\n" :=
    { around := w
      args := ["--ext", "l", "p"]
      settings := { program := some "p", extensions := [some "l"] }
      understood := by
        simp only [Settings.ofArgs, hext, hlimit, hpath]
        rfl
      batch := rfl
      limits := hlimits
      given := .file rfl rfl (by simp) rfl hbytes }
  let viaPipe : Delivery "+é.\r\n" :=
    { around := w
      args := ["--ext", "l"]
      settings := { extensions := [some "l"] }
      understood := by
        simp only [Settings.ofArgs, hext, hlimit]
        rfl
      batch := rfl
      limits := hlimits
      given := .pipe rfl rfl (congrArg Input.piped hbytes) }
  exact ⟨run_same_however_given viaArgument viaFile rfl rfl 9,
    run_same_however_given viaArgument viaPipe rfl rfl 9⟩

end Command

end TapeLang
