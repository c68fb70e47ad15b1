/-
# Running the machine

An instruction either is done and the counter moves on, or raises a fault and
the counter stays on it; what it took off the stack before stays off. Since
there are no jumps, a run ends after at most as many steps as instructions are
left.

Key definitions: `Outcome`, `BinaryOp.apply`, `Machine.perform`, `Machine.step`, `Machine.run`.
-/
import ScriptDebug.Machine
import ScriptDebug.Number.Binary64

namespace ScriptDebug

/-- The state after an action, with the fault if it raised one. -/
inductive Outcome where
  | done (machine : Machine)
  | raised (fault : Fault) (machine : Machine)

namespace Outcome

def machine : Outcome → Machine
  | done m | raised _ m => m

def fault? : Outcome → Option Fault
  | done _ => none
  | raised f _ => some f

/-- Goes on with a state unless a fault was raised. -/
def andThen (o : Outcome) (f : Machine → Outcome) : Outcome :=
  match o with
  | done m => f m
  | raised e m => raised e m

end Outcome

/-- How two values compare: strings by their characters, everything else as numbers. A number that
is none compares with nothing. -/
def Value.compare? (a b : Value) : Option Ordering :=
  match a, b with
  | .string s, .string t => some (compare s t)
  | _, _ =>
    let x := a.toNumber
    let y := b.toNumber
    if x < y then some .lt else if x == y then some .eq else if y < x then some .gt else none

/-- The sum of numbers, or the texts one after the other if one of the values is a string. -/
def Value.add (a b : Value) : Value :=
  match a, b with
  | .string _, _ | _, .string _ => .string (a.text ++ b.text)
  | _, _ => .number (a.toNumber + b.toNumber)

/-- The value of an operator at two values that stand for something. -/
def BinaryOp.value (op : BinaryOp) (a b : Value) : Value :=
  match op with
  | .add => a.add b
  | .sub => .number (a.toNumber - b.toNumber)
  | .mul => .number (a.toNumber * b.toNumber)
  | .div => .number (a.toNumber / b.toNumber)
  | .rem => .number (Number.remainder a.toNumber b.toNumber)
  | .eq => .bool (a.same b)
  | .notEq => .bool (!a.same b)
  | .lt => .bool ((a.compare? b).any Ordering.isLT)
  | .le => .bool ((a.compare? b).any Ordering.isLE)
  | .gt => .bool ((a.compare? b).any Ordering.isGT)
  | .ge => .bool ((a.compare? b).any Ordering.isGE)

/-- Operators refuse a name that stands for no value, the left one first. -/
def BinaryOp.apply (op : BinaryOp) (a b : Value) : Except Fault Value :=
  match a, b with
  | .unresolved x, _ => .error (.unresolvedOperand x)
  | _, .unresolved x => .error (.unresolvedOperand x)
  | _, _ => .ok (op.value a b)

namespace Machine

/-- Takes the top value off and goes on with it. -/
def withTop (m : Machine) (f : Value → Machine → Outcome) : Outcome :=
  match m.pop? with
  | some (v, m) => f v m
  | none => .raised (.broken .stackUnderflow) m

/-- What an instruction does, before the counter moves. -/
def perform (m : Machine) : Instruction → Outcome
  | .loadConst i =>
    match m.frame.program.constants[i]? with
    | some v => .done (m.push v)
    | none => .raised (.broken (.badConstant i)) m
  | .loadUndefined => .done (m.push .undefined)
  | .loadNull => .done (m.push .null)
  | .loadBool b => .done (m.push (.bool b))
  | .loadName x =>
    match m.lookup? x with
    | some v => .done (m.push v)
    | none => .raised (.unbound x) m
  | .storeName x =>
    match m.stack with
    | v :: _ => .done (m.assign x v)
    | [] => .raised (.broken .emptyStack) m
  | .defineLet x => m.withTop fun v m => .done (m.define x v)
  | .defineVar x => m.withTop fun v m => .done (m.setGlobal x v)
  | .loadThis => .done (m.push m.self)
  | .loadGlobalThis => .done (m.push (.object .global))
  | .neg => m.withTop fun v m => .done (m.push (.number (-v.toNumber)))
  | .not => m.withTop fun v m => .done (m.push (.bool (!v.truthy)))
  | .binary op => m.withTop fun b m => m.withTop fun a m =>
    match op.apply a b with
    | .ok v => .done (m.push v)
    | .error fault => .raised fault m
  | .pop => m.withTop fun _ m => .done m
  | .saveResult => m.withTop fun v m => .done { m with frame := { m.frame with result := v } }
  | .enterBlock => .done m.enterBlock
  | .leaveBlock =>
    match m.leaveBlock? with
    | some m => .done m
    | none => .raised (.broken .leftOutermostScope) m
  | .pause => .done m
  | .halt => .done { m with halted := true }

/-- Moves the counter to the next instruction. -/
def advance (m : Machine) : Machine := { m with frame := { m.frame with pc := m.frame.pc + 1 } }

/-- Executes the instruction at the counter. -/
def step (m : Machine) : Outcome :=
  match m.frame.program.code[m.frame.pc]? with
  | some i => (m.perform i).andThen fun m => .done m.advance
  | none => .raised (.broken (.pastEnd m.frame.pc)) m

/-- Steps until the machine has halted or no instruction is left, at most `n` times. -/
def runFor : Nat → Machine → Outcome
  | 0, m => .done m
  | n + 1, m => if !m.halted && m.hasInstructions then m.step.andThen (runFor n) else .done m

/-- Runs to a halt or to the end of the program. -/
def run (m : Machine) : Outcome := runFor (m.frame.program.code.size - m.frame.pc) m

end Machine
end ScriptDebug
