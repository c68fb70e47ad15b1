/-
# The debugger

A machine that is paused between commands, with its session, the registered
breakpoints, the options of listings and the journal of what happened.

Key definitions: `Debugger`, `Debugger.start`, `Debugger.stepOnce`, `Debugger.stopHere?`.
-/
import ScriptDebug.Fragment
import ScriptDebug.Listing
import ScriptDebug.Resolution
import ScriptDebug.Session

namespace ScriptDebug

structure Debugger where
  machine : Machine
  session : Session
  breakpoints : Breakpoints
  options : ListOptions
  journal : Array Event

namespace Debugger

def line (d : Debugger) : Nat := d.machine.line

def filename (d : Debugger) : String := d.machine.frame.program.source.name

/-- Whether instructions are left. -/
def canRun (d : Debugger) : Bool := d.machine.hasInstructions

/-- How many instructions are left. -/
def remaining (d : Debugger) : Nat := d.machine.frame.program.code.size - d.machine.frame.pc

def tell (d : Debugger) (e : Event) : Debugger := { d with journal := d.journal.push e }

def withSession (d : Debugger) (f : Session → Session) : Debugger :=
  { d with session := f d.session }

/-- Moves the cursor to the line at the counter. -/
def updateLine (d : Debugger) : Debugger := d.withSession fun s => { s with currentLine := d.line }

def setPhase (d : Debugger) (phase : Phase) : Debugger := d.withSession fun s => { s with phase }

/-- A debugger about to begin with a machine. -/
def start (m : Machine) (options : ListOptions) : Debugger :=
  updateLine { machine := m, session := .start, breakpoints := .empty, options, journal := #[] }

/-- Forgets what was told. -/
def clearJournal (d : Debugger) : Debugger := { d with journal := #[] }

/-! ### Breakpoints, gate and inspection -/

def setBreakpoint (d : Debugger) (b : Breakpoint) : Debugger × Except DebugError Unit :=
  match d.breakpoints.set b with
  | .ok breakpoints => ({ d with breakpoints }.tell (.breakpointSet b), .ok ())
  | .error e => (d, .error e)

def clearBreakpoint (d : Debugger) (b : Breakpoint) : Debugger × Except DebugError Unit :=
  match d.breakpoints.clear b with
  | .ok breakpoints => ({ d with breakpoints }.tell (.breakpointRemoved b), .ok ())
  | .error e => (d, .error e)

/-- Releases the gate of the session. To release it again changes nothing. -/
def release (d : Debugger) : Debugger :=
  (d.withSession Session.release).tell
    (if d.session.isReleased then .gateReleasedBefore else .gateReleased)

def reactivate (d : Debugger) : Debugger := d.withSession Session.reactivate

/-- Runs a text on top of the paused frame. -/
def evaluate (d : Debugger) (text : String) : Debugger × Except DebugError Value :=
  let e := d.machine.evaluate text
  ({ d with machine := e.machine, journal := d.journal ++ e.events }, e.outcome)

def resolve (d : Debugger) (x : String) : Debugger × Resolution :=
  let r := d.machine.resolve x
  (if r.tier = .receiver then d.tell (.receiverShown x) else d, r)

/-! ### Single steps -/

/-- Tells of the instruction at the counter, if there is one. -/
def tellInstruction (d : Debugger) : Debugger :=
  match d.machine.frame.program.code[d.machine.frame.pc]? with
  | some i => d.tell (.instruction d.machine.frame.pc i)
  | none => d

/-- Executes one instruction of the machine. -/
def stepMachine (d : Debugger) : Debugger × Option Fault :=
  let d := d.tellInstruction
  let o := d.machine.step
  ({ d with machine := o.machine }, o.fault?)

/-- Executes one instruction of the program. A fault ends the program. -/
def stepOnce (d : Debugger) : Debugger × Option DebugError :=
  match d.stepMachine with
  | (d, none) => (d, none)
  | (d, some fault) =>
    let d := d.tell (.programRaised d.machine.frame.pc fault)
    ({ d with machine := d.machine.terminate }, some (.execution fault))

/-- Runs the machine to a halt or to the end of the program, at most `n` steps. -/
def runMachineFor : Nat → Debugger → Debugger × Option Fault
  | 0, d => (d, none)
  | n + 1, d =>
    if !d.machine.halted && d.canRun then
      match d.stepMachine with
      | (d, none) => runMachineFor n d
      | (d, some fault) => (d, some fault)
    else (d, none)

/-- Runs the machine without regard to stop points. -/
def runMachine (d : Debugger) : Debugger × Option Fault := runMachineFor d.remaining d

def terminateMachine (d : Debugger) : Debugger := { d with machine := d.machine.terminate }

/-! ### Stop points -/

/-- Whether the instruction at the counter is a marker to stop at. -/
def atMarker (d : Debugger) : Bool :=
  d.machine.frame.program.code[d.machine.frame.pc]? = some .pause

def atBreakpoint (d : Debugger) : Bool := d.breakpoints.contains ⟨d.filename, d.line⟩

/-- Why a run has to stop before the next instruction: at a marker, or at a breakpoint on a line
that was just entered. -/
def stopHere? (d : Debugger) (entered : Bool) : Option StopReason :=
  if d.atMarker then some .marker
  else if entered && d.atBreakpoint then some .breakpoint
  else none

/-- Whether the program opens with a marker, inside blocks or not, that has not been passed. -/
def isBreakOnStart (d : Debugger) : Bool :=
  let code := d.machine.frame.program.code
  match code.findIdx? (· ≠ .enterBlock) with
  | some first => code[first]? = some .pause && d.machine.frame.pc ≤ first
  | none => false

end Debugger
end ScriptDebug
