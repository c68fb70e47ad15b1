/-
# Commands of the debugger

A command moves the paused program on or looks at it. `next` goes on to the
next line that holds code below the current one, `resume` to the next stop
point; both stop where the program ends or raises a fault, and a marker stops
both unless they start on it.

Key definitions: `Command`, `Reply`, `Report`, `Debugger.runOn`, `Debugger.next`,
`Debugger.resume`, `Debugger.runToPause`, `Debugger.run`.
-/
import ScriptDebug.Debugger

namespace ScriptDebug

inductive Command where
  | next
  | resume
  | stepIn
  | stepOut
  | exec (text : String)
  | print (name : String)
  | list
  deriving DecidableEq, Repr

def Command.name : Command → String
  | .next => "next"
  | .resume => "continue"
  | .stepIn => "step"
  | .stepOut => "out"
  | .exec _ => "exec"
  | .print _ => "print"
  | .list => "list"

/-- What a command answers. -/
inductive Reply where
  | value (v : Value)
  | text (s : String)

def Reply.shown : Reply → String
  | .value v => v.text
  | .text s => s

/-- The outcome of a command. A value may come with an error. -/
structure Report where
  value : Option Reply
  error : Option DebugError

namespace Report

def done : Report := ⟨none, none⟩

def text (s : String) : Report := ⟨some (.text s), none⟩

def failed (e : DebugError) : Report := ⟨none, some e⟩

/-- The report of a command without a reply. -/
def ofError (e : Option DebugError) : Report := ⟨none, e⟩

/-- The report of a computation with its reply. -/
def ofExcept : Except DebugError Reply → Report
  | .ok r => ⟨some r, none⟩
  | .error e => failed e

end Report

namespace Debugger

/-! ### Running to a stop point -/

/-- Executes one instruction, which is on line `line`, and then goes on to the next stop point, at
most `n` instructions. -/
def runOn : Nat → Nat → Debugger → Debugger × Except DebugError StopReason
  | 0, _, d => (d, .ok .exhausted)
  | n + 1, line, d =>
    match d.stepOnce with
    | (d, some e) => (d, .error e)
    | (d, none) =>
      if !d.canRun then (d, .ok .exhausted)
      else match d.stopHere? (d.line ≠ line) with
        | some reason => (d, .ok reason)
        | none => runOn n d.line d

/-- Leaves the present instruction, whatever it is, and goes on to the next stop point. -/
def runOff (d : Debugger) : Debugger × Except DebugError StopReason :=
  if d.canRun then runOn d.remaining d.line d else (d, .ok .exhausted)

/-- Goes on to a stop point, the present instruction included. -/
def runUpTo (d : Debugger) : Debugger × Except DebugError StopReason :=
  if !d.canRun then (d, .ok .exhausted)
  else match d.stopHere? true with
    | some reason => (d, .ok reason)
    | none => runOn d.remaining d.line d

/-- The first positioning of a session that does not stop on entry. The gate stays as it is. -/
def runToPause (d : Debugger) : Debugger × Except DebugError Unit :=
  let (d, outcome) := d.runUpTo
  (d.updateLine, outcome.map fun _ => ())

/-! ### Commands -/

/-- Executes one instruction, and then goes on to line `target` or a marker, at most `n`
instructions. -/
def stepToLine : Nat → Nat → Debugger → Debugger × Option DebugError
  | 0, _, d => (d, none)
  | n + 1, target, d =>
    match d.stepOnce with
    | (d, some e) => (d, some e)
    | (d, none) =>
      if d.canRun && d.line ≠ target && !d.atMarker then stepToLine n target d else (d, none)

/-- Goes on to the next line with code. -/
def next (d : Debugger) : Debugger × Report :=
  let target := d.machine.frame.program.nextLine d.machine.frame.pc
  let began := d.setPhase .running
  let (after, error) :=
    if began.canRun then stepToLine began.remaining target began else (began, none)
  ((after.updateLine.withSession (·.pushLine d.line)).setPhase .paused, .ofError error)

/-- Tells where a run stopped. -/
def tellStop (d : Debugger) (outcome : Except DebugError StopReason) : Debugger :=
  match outcome with
  | .ok reason => d.tell (.stopped reason d.filename d.line)
  | .error _ => d

/-- Goes on to the next stop point and releases the gate. -/
def resume (d : Debugger) : Debugger × Report :=
  let (after, outcome) := (d.setPhase .running).runOff
  let after := after.tellStop outcome
  let error := match outcome with
    | .ok _ => none
    | .error e => some e
  ((after.updateLine.withSession (·.pushLine d.line)).release, .ofError error)

/-- Evaluates a text that is not blank and answers its value. -/
def exec (d : Debugger) (text : String) : Debugger × Report :=
  if (Text.trim text.toList).isEmpty then (d, .failed (.usage .nothingToExecute))
  else
    let (d, outcome) := d.evaluate text
    (d.withSession (·.pushLine d.line), .ofExcept (outcome.map .value))

/-- Answers the value of a name. In place of an undefined value the constants of the program are
shown. -/
def print (d : Debugger) (x : String) : Debugger × Report :=
  if x.isEmpty then (d, .failed (.usage .noVariableName))
  else
    let (d, r) := d.resolve x
    let reply := if r.value.isUndefined then Reply.text d.machine.frame.program.constantsText
      else .value r.value
    (d, ⟨some reply, r.error⟩)

/-- Answers the source around the current line. -/
def list (d : Debugger) : Debugger × Report :=
  (d, .text (Listing.render d.machine.frame.program.source d.line d.options))

/-- Executes a command. -/
def run (d : Debugger) (c : Command) : Debugger × Report :=
  let d := d.tell (.command c.name d.machine.frame.pc)
  match c with
  | .next => d.next
  | .resume => d.resume
  | .stepIn => (d, .failed .unimplemented)
  | .stepOut => (d, .failed .unimplemented)
  | .exec text => d.exec text
  | .print x => d.print x
  | .list => d.list

end Debugger
end ScriptDebug
