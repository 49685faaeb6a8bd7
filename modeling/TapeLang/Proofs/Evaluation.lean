import TapeLang.Interp.Run
import TapeLang.Script

/-!
# Carrying out runs

A round of calls is recursion over places that are well ordered for some reason or other, so a run
does not reduce by itself. Where this namespace is open, `simp` carries out the run of a text whose
tokens are known, one equation of the machine after the other.
-/

namespace TapeLang.Evaluation

-- what a program is read from
attribute [scoped simp] Interp.parse Program.parse Program.ofSource Program.readSpan Source.closer?
  Source.kind Source.place Source.location Source.statement

-- a round of calls
attribute [scoped simp] Interp.announce Interp.round Interp.roundFrom Interp.callListener
  Interp.noteCall Interp.performAll Interp.perform Hooks.count Notice.signal Trigger.hears
  Listener.react Script.actions

-- the machine
attribute [scoped simp] Config.advance Config.step Config.enter Config.perform Config.descend
  Config.turn Config.leave Config.maxActive Progress.ofResult ActiveLoop.node Hooks.idle
  Trigger.perInstruction Interp.start Interp.reach Interp.push Interp.pop Interp.operate
  Interp.emit Interp.alter Interp.work Interp.cell Interp.announceBefore Interp.announceAfter
  Frame.ofLoop Sink.closing Sink.taken Sink.refused Tape.current Tape.modify Tape.left Tape.right

-- runs
attribute [scoped simp] Interp.run Interp.runProgram Interp.begin Interp.load Interp.topLevel
  Interp.conclude Interp.report Interp.raise Interp.wrap Interp.position Frame.position
  Interp.execute Interp.lend Interp.giveBack

end TapeLang.Evaluation
