/-
# Evaluating a fragment

A fragment is a text that runs on top of a paused frame: it sees the scopes of
the frame and what `this` is there, and its own declarations go into a scope of
its own. Afterwards the frame is as before, whether the fragment ended well or
not; only what the fragment assigned or declared global remains.

Key definitions: `Evaluation`, `Machine.enterFragment`, `Machine.leaveFragment`,
`Machine.evaluate`.
-/
import ScriptDebug.Debugger.Error
import ScriptDebug.Journal
import ScriptDebug.Machine.Step
import ScriptDebug.Program.OfTree

namespace ScriptDebug

/-- The machine after a fragment, the value of the fragment, and what there is to tell. -/
structure Evaluation where
  machine : Machine
  outcome : Except DebugError Value
  events : List Event

/-- The name under which the text of a fragment is a source. -/
def fragmentName : String := "<eval>"

/-- Whether `this` in the frame is the global object. -/
def Machine.hasGlobalSelf (m : Machine) : Bool :=
  match m.self with
  | .object ref => ref = .global
  | _ => false

/-- The program of a fragment for the frame. -/
def Machine.fragmentProgram (m : Machine) (text : String) : Except SyntaxError Program :=
  Program.ofSource (Source.ofText fragmentName text) ⟨true, m.hasGlobalSelf⟩

/-- The machine with the program of a fragment on top of the frame. -/
def Machine.enterFragment (m : Machine) (p : Program) : Machine := m.enter p m.self

/-- The machine after a fragment that was entered from `m` and ran as far as `ran`: back in the
frame, with the stack cut to its height. -/
def Machine.leaveFragment (m ran : Machine) : Except Fault Machine :=
  match ran.resume? with
  | some back => .ok ({ back with halted := m.halted }.truncate m.height)
  | none => .error (.broken .noSavedFrame)

/-- The events of a run that began at the first instruction: one for each instruction executed and
one for that which raised a fault. -/
def executedEvents (o : Outcome) : List Event :=
  let frame := o.machine.frame
  let count := frame.pc + (if o.fault?.isSome then 1 else 0)
  ((frame.program.code.extract 0 count).toList.zipIdx).map fun p => .instruction p.2 p.1

/-- The outcome of a fragment that ran. A breach is not reported as such. -/
def fragmentOutcome (o : Outcome) : Except DebugError Value :=
  match o with
  | .done m => .ok m.frame.result
  | .raised (.broken _) _ => .error .unrecoverable
  | .raised fault _ => .error (.evaluation fault)

/-- The events of a fragment's fault. -/
def breachEvents : Outcome → List Event
  | .raised (.broken b) _ => [.breachInFragment b]
  | _ => []

/-- Runs a text on top of the frame. -/
def Machine.evaluate (m : Machine) (text : String) : Evaluation :=
  match m.fragmentProgram text with
  | .error e => ⟨m, .error (.misread e), []⟩
  | .ok p =>
    let ran := (m.enterFragment p).run
    let told := .evaluating text p.code.size m.hasGlobalSelf :: executedEvents ran
    match m.leaveFragment ran.machine with
    | .ok back => ⟨back, fragmentOutcome ran, told ++ breachEvents ran⟩
    | .error fault =>
      ⟨{ ran.machine with halted := m.halted }.truncate m.height, .error .unrecoverable,
        told ++ [.notRestored fault]⟩

end ScriptDebug
