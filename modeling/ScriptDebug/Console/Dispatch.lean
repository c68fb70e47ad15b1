/-
# Carrying out a command of the console

A command either is reported on or ends the session with an exit code. A
`continue` ends a cycle of pausing, and while code is left the next cycle
begins at once.

Key definitions: `Console.Answer`, `Console.dispatch`.
-/
import ScriptDebug.Console.Command

namespace ScriptDebug
namespace Console

inductive Answer where
  | report (r : Report)
  | quit (code : Int)

/-- The report of a breakpoint that was set or cleared. -/
def breakpointReport (what : String) (b : Breakpoint) : Except DebugError Unit → Report
  | .ok () => .text (what ++ b.text)
  | .error e => .failed e

/-- The registered breakpoints, one on a line. -/
def breakpointList (r : Breakpoints) : Report :=
  .ofExcept (r.list.map fun points => .text ("\n".intercalate (points.map Breakpoint.text)))

/-- Begins the next cycle of pausing after a `continue` that left code to run. -/
def rearm (c : ScriptDebug.Command) (d : Debugger) : Debugger :=
  if c = .resume && d.canRun then d.reactivate else d

def dispatch (d : Debugger) : Command → Debugger × Answer
  | .setBreakpoint b =>
    let (d, outcome) := d.setBreakpoint b
    (d, .report (breakpointReport "breakpoint set at " b outcome))
  | .clearBreakpoint b =>
    let (d, outcome) := d.clearBreakpoint b
    (d, .report (breakpointReport "breakpoint cleared at " b outcome))
  | .breakpoints => (d, .report (breakpointList d.breakpoints))
  | .debug c =>
    let (d, r) := d.run c
    (rearm c d, .report r)
  | .help => (d, .report (.text help))
  | .quit code => (d, .quit code)

end Console
end ScriptDebug
