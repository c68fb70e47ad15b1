/-
# The machine

A stack machine that runs one frame at a time. The frame holds the program with
its counter, the completion value and the scopes visible in it; the operand
stack is shared by the frames, and a frame that has a receiver finds it on the
stack at its base. Frames that are set aside wait in a list.

Key definitions: `Frame`, `Machine`, `Machine.start`, `Machine.withReceiver`,
`Machine.lookup?`, `Machine.assign`, `Machine.enter`, `Machine.resume?`.
-/
import ScriptDebug.Machine.Fault
import ScriptDebug.Program
import ScriptDebug.Scope

namespace ScriptDebug

/-- What is set aside while another program runs on top: the program and its counter, the stack
index of the receiver (none at script level), the number of arguments, the completion value and
the visible scopes. -/
structure Frame where
  program : Program
  pc : Nat
  base : Option Nat
  args : Nat
  result : Value
  chain : Chain

/-- The state of the machine. The top of the stack comes first. -/
structure Machine where
  frame : Frame
  stack : List Value
  halted : Bool
  saved : List Frame
  scopes : Scopes
  globals : Bindings

namespace Machine

/-- A program about to start, in one scope without bindings. -/
def start (p : Program) : Machine :=
  { frame :=
      { program := p, pc := 0, base := none, args := 0, result := .undefined, chain := ⟨0, []⟩ }
    stack := []
    halted := false
    saved := []
    scopes := .start
    globals := .empty }

/-- A program about to start in a frame with a receiver. -/
def withReceiver (p : Program) (self : Value) : Machine :=
  let m := start p
  { m with frame := { m.frame with base := some 0 }, stack := [self] }

/-- The height of the stack. -/
def height (m : Machine) : Nat := m.stack.length

/-- The receiver of the frame, if it has one. -/
def receiver? (m : Machine) : Option Value := m.frame.base.bind fun i => m.stack.reverse[i]?

/-- What `this` is in the frame: its receiver, else the global object. -/
def self (m : Machine) : Value := m.receiver?.getD (.object .global)

def hasInstructions (m : Machine) : Bool := m.frame.pc < m.frame.program.code.size

/-- Gives up the rest of the program. -/
def terminate (m : Machine) : Machine :=
  { m with frame := { m.frame with pc := m.frame.program.code.size } }

def line (m : Machine) : Nat := m.frame.program.lineAt m.frame.pc

/-! ### The operand stack -/

def push (m : Machine) (v : Value) : Machine := { m with stack := v :: m.stack }

/-- The height below which the frame may not pop: what was there before it, and its receiver. -/
def floor (m : Machine) : Nat := (m.frame.base.map (· + 1)).getD 0

/-- Takes the top value off. -/
def pop? (m : Machine) : Option (Value × Machine) :=
  match m.stack with
  | [] => none
  | v :: stack => if m.floor < m.height then some (v, { m with stack }) else none

/-! ### Names -/

/-- The value of a name: in the innermost scope that binds it, else the global property. -/
def lookup? (m : Machine) (x : String) : Option Value :=
  (m.scopes.find? m.frame.chain x).or (m.globals.get? x)

/-- Binds a name in the innermost scope. -/
def define (m : Machine) (x : String) (v : Value) : Machine :=
  { m with scopes := m.scopes.define m.frame.chain.inner x v }

def setGlobal (m : Machine) (x : String) (v : Value) : Machine :=
  { m with globals := m.globals.put x v }

/-- Overwrites the innermost binding of a name. A name without one becomes a global property. -/
def assign (m : Machine) (x : String) (v : Value) : Machine :=
  match m.scopes.owner? m.frame.chain x with
  | some i => { m with scopes := m.scopes.define i x v }
  | none => m.setGlobal x v

/-! ### Blocks and frames -/

/-- Puts a new scope inside the visible ones. -/
def enterBlock (m : Machine) : Machine :=
  { m with
    frame := { m.frame with chain := m.frame.chain.push m.scopes.next }
    scopes := m.scopes.grow }

/-- Goes back to the scope around the innermost one. -/
def leaveBlock? (m : Machine) : Option Machine :=
  m.frame.chain.around?.map fun chain => { m with frame := { m.frame with chain } }

/-- Sets the frame aside and starts a program on top of it with `self` as its receiver. It sees the
same scopes. -/
def enter (m : Machine) (p : Program) (self : Value) : Machine :=
  { m with
    frame :=
      { program := p, pc := 0, base := some m.height, args := 0, result := .undefined
        chain := m.frame.chain }
    stack := self :: m.stack
    halted := false
    saved := m.frame :: m.saved }

/-- Goes back to the frame set aside last. -/
def resume? (m : Machine) : Option Machine :=
  match m.saved with
  | [] => none
  | frame :: saved => some { m with frame, saved }

/-- Drops what is on the stack above a height. -/
def truncate (m : Machine) (height : Nat) : Machine :=
  { m with stack := m.stack.drop (m.height - height) }

end Machine
end ScriptDebug
