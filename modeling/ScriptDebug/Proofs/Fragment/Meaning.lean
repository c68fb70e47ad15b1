/-
# What a fragment means

A direct evaluator of the trees of fragments. A script begins in a machine of its
own, and the evaluator of scripts gets along with the bindings that are visible.
A fragment begins in whatever machine was paused: other frames may see the scopes
that it sees, and a value it finds may stand for a name without one, which an
operator refuses. So here the state is a heap, the whole store of scopes with the
properties of the global object and the completion value, and the scopes that are
visible are given by a chain of handles.

A fragment is evaluated in one new scope inside the scope that is the innermost
one in the paused frame, with the receiver of that frame (`Machine.evalFragment`).
What is to come of it is a value or an error, and the paused machine with the
scopes and the globals of the heap at the end (`Machine.settle`).

Key definitions: `Heap`, `HeapEval`, `Expr.evalIn`, `Stmt.evalIn`, `evalBodyIn`,
`Machine.fragmentHeap`, `Machine.fragmentChain`, `Machine.evalFragment`,
`Machine.settle`, `Machine.reference`.
-/
import ScriptDebug.Fragment
import ScriptDebug.Proofs.Meaning

namespace ScriptDebug

/-! ### Heaps -/

/-- What a fragment can see and change. -/
structure Heap where
  scopes : Scopes
  globals : Bindings
  completion : Value

namespace Heap

/-- The value of a name: in the innermost scope of the chain that binds it, else the global
property. -/
def lookup? (h : Heap) (c : Chain) (x : String) : Option Value :=
  (h.scopes.find? c x).or (h.globals.get? x)

/-- Binds a name in one scope. -/
def define (h : Heap) (i : ScopeId) (x : String) (v : Value) : Heap :=
  { h with scopes := h.scopes.define i x v }

def setGlobal (h : Heap) (x : String) (v : Value) : Heap :=
  { h with globals := h.globals.put x v }

/-- Overwrites the innermost binding of a name in the chain, or else sets the global property. -/
def assign (h : Heap) (c : Chain) (x : String) (v : Value) : Heap :=
  match h.scopes.owner? c x with
  | some i => h.define i x v
  | none => h.setGlobal x v

def complete (h : Heap) (v : Value) : Heap := { h with completion := v }

def grow (h : Heap) : Heap := { h with scopes := h.scopes.grow }

/-- What a script sees of a heap along a chain. -/
def world (h : Heap) (c : Chain) : World := ⟨c.ids.map h.scopes.read, h.globals, h.completion⟩

end Heap

/-- A computation on heaps that may end in a fault, with what it did up to there. -/
abbrev HeapEval := EStateM Fault Heap

namespace HeapEval

/-- The value of a name. -/
def read (c : Chain) (x : String) : HeapEval Value := fun h =>
  match h.lookup? c x with
  | some v => .ok v h
  | none => .error (.unbound x) h

/-- The value of an operator, which refuses what stands for no value. -/
def operate (op : BinaryOp) (a b : Value) : HeapEval Value := fun h =>
  match op.apply a b with
  | .ok v => .ok v h
  | .error fault => .error fault h

/-- The handle of a new scope. -/
def allocate : HeapEval ScopeId := fun h => .ok h.scopes.next h.grow

end HeapEval

/-! ### Trees -/

/-- The value of an expression where `self` is the receiver and the scopes of `c` are visible. -/
def Expr.evalIn (self : Value) (c : Chain) : Expr → HeapEval Value
  | .number x => pure (.number x)
  | .string s => pure (.string s)
  | .bool b => pure (.bool b)
  | .null => pure .null
  | .undefined => pure .undefined
  | .self => pure self
  | .name x => HeapEval.read c x
  | .unary op e => do
    let v ← e.evalIn self c
    pure (op.value v)
  | .binary op l r => do
    let a ← l.evalIn self c
    let b ← r.evalIn self c
    HeapEval.operate op a b
  | .assign x e => do
    let v ← e.evalIn self c
    modify (·.assign c x v)
    pure v

mutual

/-- A declaration without an expression gives its name what `undefined` gives. -/
def Stmt.evalIn (self : Value) (c : Chain) : Stmt → HeapEval Unit
  | .empty _ => pure ()
  | .pause _ => pure ()
  | .declare _ how x init => do
    let v ← (init.getD .undefined).evalIn self c
    match how with
    | .lexical => modify (·.define c.inner x v)
    | .globalProperty => modify (·.setGlobal x v)
  | .expr _ e => do
    let v ← e.evalIn self c
    modify (·.complete v)
  | .block _ body => do
    let i ← HeapEval.allocate
    evalBodyIn self (c.push i) body

def evalBodyIn (self : Value) (c : Chain) : List Stmt → HeapEval Unit
  | [] => pure ()
  | s :: body => do
    s.evalIn self c
    evalBodyIn self c body

end

/-! ### Machines -/

namespace Machine

/-- What a fragment sees of a machine. -/
def heap (m : Machine) : Heap := ⟨m.scopes, m.globals, m.frame.result⟩

/-- The heap in which a fragment begins. It has one scope more, and no expression statement has given
a value so far. -/
def fragmentHeap (m : Machine) : Heap := ⟨m.scopes.grow, m.globals, .undefined⟩

/-- The scopes visible in a fragment: a new one, and those visible in the frame around it. -/
def fragmentChain (m : Machine) : Chain := m.frame.chain.push m.scopes.next

/-- What the statements of a fragment mean, with the receiver of the frame. -/
def evalFragment (m : Machine) (body : List Stmt) : EStateM.Result Fault Heap Unit :=
  evalBodyIn m.self m.fragmentChain body m.fragmentHeap

/-- The machine with the scopes and the globals of a heap. -/
def withHeap (m : Machine) (h : Heap) : Machine := { m with scopes := h.scopes, globals := h.globals }

/-- What becomes of a machine, and what there is to answer, when an evaluation ends: the completion
value or the fault, and all effects up to there. -/
def settle (m : Machine) : EStateM.Result Fault Heap Unit → Machine × Except DebugError Value
  | .ok () h => (m.withHeap h, .ok h.completion)
  | .error fault h => (m.withHeap h, .error (.evaluation fault))

/-- What has to come of a text. One that does not parse has no effect. -/
def reference (m : Machine) (text : String) : Machine × Except DebugError Value :=
  match Tree.ofSource (Source.ofText fragmentName text) with
  | .error e => (m, .error (.misread e))
  | .ok body => m.settle (m.evalFragment body)

/-! ### The heap of a machine -/

theorem heap_assign (m : Machine) (x : String) (v : Value) :
    (m.assign x v).heap = m.heap.assign m.frame.chain x v := by
  have howner : m.heap.scopes.owner? m.frame.chain x = m.scopes.owner? m.frame.chain x := rfl
  unfold Machine.assign Heap.assign
  rw [howner]
  cases m.scopes.owner? m.frame.chain x with
  | some i => rfl
  | none => rfl

theorem heap_leaveBlock {m m' : Machine} (h : m.leaveBlock? = some m') : m'.heap = m.heap := by
  obtain ⟨c, -, rfl⟩ := Option.map_eq_some_iff.1 h
  rfl

end Machine
end ScriptDebug
