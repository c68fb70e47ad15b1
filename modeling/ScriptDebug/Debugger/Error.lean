/-
# What a command can report

Each failure is its cause; the wording is in one function.

Key definitions: `Misuse`, `Absence`, `DebugError`, `DebugError.message`.
-/
import ScriptDebug.Breakpoint
import ScriptDebug.Machine.Fault
import ScriptDebug.Script.Error

namespace ScriptDebug

/-- A command that was not given as it has to be. -/
inductive Misuse where
  | unknownCommand (word : String)
  | unbalancedQuotes
  | invalidExitCode (word : String)
  | badLocation
  | nothingToExecute
  | noVariableName
  deriving DecidableEq, Repr

def Misuse.text : Misuse → String
  | .unknownCommand word => s!"unknown command `{word}`, try `help`"
  | .unbalancedQuotes => "unbalanced quotes"
  | .invalidExitCode word => s!"invalid exit code `{word}`"
  | .badLocation => "expected FILE LINE, FILE:LINE or LINE"
  | .nothingToExecute => "nothing to execute"
  | .noVariableName => "please specify variable name"

/-- A breakpoint that is not there: any one to clear, a certain one to clear, any one to list. -/
inductive Absence where
  | noneToClear
  | notSet (b : Breakpoint)
  | noneToList
  deriving DecidableEq, Repr

def Absence.text : Absence → String
  | .noneToClear => "no breakpoints set"
  | .notSet b => "no breakpoint at " ++ b.text
  | .noneToList => "no breakpoints"

/-- Why a command failed. A value comes along with `unresolved` and `receiverFallback`. -/
inductive DebugError where
  | usage (misuse : Misuse)
  | notFound (absence : Absence)
  | duplicate
  | misread (error : SyntaxError)
  | evaluation (fault : Fault)
  | unrecoverable
  | unresolved (name : String)
  | receiverFallback (name : String)
  | unimplemented
  | execution (fault : Fault)
  deriving DecidableEq, Repr

def DebugError.message : DebugError → String
  | .usage m => m.text
  | .notFound a => a.text
  | .duplicate => "breakpoint exists"
  | .misread e => e.message
  | .evaluation fault => fault.message
  | .unrecoverable => "cannot recover from exception"
  | .unresolved name => s!"cannot resolve variable `{name}`"
  | .receiverFallback name =>
    s!"`{name}` is not bound in any lexical scope, showing the frame receiver"
  | .unimplemented => "not implemented yet"
  | .execution fault => "uncaught exception: " ++ fault.message

/-- Registers a breakpoint. One that is registered already stays as it is. -/
def Breakpoints.set (r : Breakpoints) (b : Breakpoint) : Except DebugError Breakpoints :=
  match r.set? b with
  | some r => .ok r
  | none => .error .duplicate

/-- Removes a breakpoint. -/
def Breakpoints.clear (r : Breakpoints) (b : Breakpoint) : Except DebugError Breakpoints :=
  if r.points.isEmpty then .error (.notFound .noneToClear)
  else match r.clear? b with
    | some r => .ok r
    | none => .error (.notFound (.notSet b))

/-- The registered breakpoints in the order in which they were set. Having none is an error. -/
def Breakpoints.list (r : Breakpoints) : Except DebugError (List Breakpoint) :=
  if r.points.isEmpty then .error (.notFound .noneToList) else .ok r.points

end ScriptDebug
