/-
# The journal

What the debugger and the machine tell about their work. An event is kept as
what happened; its level, its target and its wording follow from that.

Key definitions: `Level`, `Level.ofText?`, `Event`, `Event.level`, `Event.message`.
-/
import ScriptDebug.Breakpoint
import ScriptDebug.Machine.Fault
import ScriptDebug.Program.Instruction
import ScriptDebug.Text.Quoted

namespace ScriptDebug

/-- How much is told, from nothing to everything. -/
inductive Level where
  | off
  | error
  | warn
  | info
  | debug
  | trace
  deriving DecidableEq, Repr

namespace Level

def rank : Level → Nat
  | off => 0
  | error => 1
  | warn => 2
  | info => 3
  | debug => 4
  | trace => 5

def text : Level → String
  | off => "OFF"
  | error => "ERROR"
  | warn => "WARN"
  | info => "INFO"
  | debug => "DEBUG"
  | trace => "TRACE"

def all : List Level := [off, error, warn, info, debug, trace]

/-- Reads the name of a level in any case. -/
def ofText? (s : String) : Option Level :=
  all.find? fun l => l.text.toList == s.toList.map Char.toUpper

end Level

/-- Why a run stopped. -/
inductive StopReason where
  | marker
  | breakpoint
  | exhausted
  deriving DecidableEq, Repr

def StopReason.text : StopReason → String
  | .marker => "Marker"
  | .breakpoint => "Breakpoint"
  | .exhausted => "Exhausted"

inductive Event where
  | loaded (name : String) (size : Nat)
  | breakpointSet (b : Breakpoint)
  | breakpointRemoved (b : Breakpoint)
  | breakpointIgnored (b : Breakpoint)
  | command (name : String) (pc : Nat)
  | instruction (pc : Nat) (i : Instruction)
  | programRaised (pc : Nat) (fault : Fault)
  | stopped (reason : StopReason) (file : String) (line : Nat)
  | gateReleased
  | gateReleasedBefore
  | evaluating (text : String) (size : Nat) (globalSelf : Bool)
  | notRestored (fault : Fault)
  | breachInFragment (breach : Breach)
  | receiverShown (name : String)
  deriving DecidableEq, Repr

namespace Event

def level : Event → Level
  | instruction _ _ => .trace
  | command _ _ | gateReleased | evaluating _ _ _ | receiverShown _ => .debug
  | loaded _ _ | breakpointSet _ | breakpointRemoved _ | stopped _ _ _ => .info
  | breakpointIgnored _ | programRaised _ _ | gateReleasedBefore | notRestored _
  | breachInFragment _ => .warn

/-- Which part tells of the event. -/
def target : Event → String
  | instruction _ _ => "vm"
  | _ => "debugger"

/-- A number to the right of four columns. -/
def column (n : Nat) : String :=
  let digits := toString n
  String.ofList (List.replicate (4 - digits.length) ' ') ++ digits

def message : Event → String
  | loaded name size => s!"loaded {name} ({size} instructions)"
  | breakpointSet b => "breakpoint set at " ++ b.text
  | breakpointRemoved b => "breakpoint removed from " ++ b.text
  | breakpointIgnored b => b.text ++ ": breakpoint exists"
  | command name pc => s!"command {name} at pc {pc}"
  | instruction pc i => column pc ++ "  " ++ i.text
  | programRaised pc fault => s!"program raised at pc {pc}: " ++ fault.message
  | stopped reason file line => "stopped (" ++ reason.text ++ s!") at {file}:{line}"
  | gateReleased => "session gate released"
  | gateReleasedBefore => "session gate already released, ignoring"
  | evaluating text size globalSelf =>
    "evaluating " ++ Text.quoted text ++ s!" ({size} instructions, global receiver: {globalSelf})"
  | notRestored fault => "context restore failed after eval: " ++ fault.message
  | breachInFragment breach => "eval hit an engine invariant: " ++ breach.text
  | receiverShown name => s!"`{name}` resolved to the frame receiver"

end Event
end ScriptDebug
