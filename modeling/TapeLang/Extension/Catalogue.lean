import TapeLang.Extension

/-!
# The catalogue of extensions

The extensions that can be loaded, each under the name of its file. Besides the two of general use
there are observers for watching a run, and modules that fail in every way in which loading or
running can fail.
-/

namespace TapeLang.Extension

/-- The extension files and what loading them comes to. -/
def catalogue : List (String × Extension) :=
  [("tapedump.py", tapeDump),
   ("steplimit.py", stepLimit),
   ("trace.py", .subscribing [(.on "before_instruction", .tracer)]),
   ("loops.py", .subscribing [(.on "loop_enter", .loopReporter), (.on "loop_exit", .loopReporter)]),
   ("errlog.py", .subscribing [(.on "on_error", .faultReporter)]),
   ("exit7.py", .subscribing [(.on "loop_enter", .leaver 7)]),
   ("interrupt3.py", .subscribing [(.every 3, .interrupter)]),
   ("boom2.py", .subscribing [(.every 2, .failer)]),
   ("endfail.py", .subscribing [(.on "program_end", .breaker (Text.quote "end"))]),
   ("broken.py", .broken "half written"),
   ("syntax.py", .broken "expected ':' (syntax.py, line 1)"),
   ("noregister.py", .inert),
   ("notcallable.py", .inert),
   ("badevent.py", .subscribing [(.on "on_input", .dumper)]),
   ("badinterval.py", .subscribing [(.every 0, .interrupter)]),
   ("regfail.py", .failing "register failed"),
   ("plain.txt", .notModule)]

end TapeLang.Extension
