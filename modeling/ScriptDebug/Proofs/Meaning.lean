/-
# What a script means

A direct evaluator of script trees. Its state is a world: the bindings of the
visible scopes, the properties of the global object and the completion value. A
`let` binds in the innermost scope, a `var` sets a property of the global
object, a block evaluates in a fresh scope that is dropped afterwards, an
assignment overwrites the nearest binding or else creates a property, and the
first name without a value ends the evaluation where it is.

A machine shows a world (`Machine.world`), and what it does to its scopes and
globals is what the evaluator does to that world, as long as the visible scopes
are different ones (`Machine.world_define`, `Machine.world_assign`).

Key definitions: `World`, `Expr.eval`, `Stmt.eval`, `evalBody`, `Machine.world`.
Key theorems: `Machine.lookup?_eq`, `Machine.world_define`, `Machine.world_assign`.
-/
import ScriptDebug.Proofs.Machine.Invariant
import ScriptDebug.Script.Tree

namespace ScriptDebug

/-- What a script can see and change. The innermost scope comes first. -/
structure World where
  scopes : List Bindings
  globals : Bindings
  completion : Value

namespace World

/-- One scope without bindings. -/
def start : World := ⟨[.empty], .empty, .undefined⟩

/-- The value of a name in the innermost scope that binds it, else the global property. -/
def lookup? (w : World) (x : String) : Option Value :=
  (w.scopes.findSome? (·.get? x)).or (w.globals.get? x)

/-- Binds a name in the innermost scope. -/
def define (w : World) (x : String) (v : Value) : World :=
  { w with scopes := w.scopes.modifyHead (·.put x v) }

def setGlobal (w : World) (x : String) (v : Value) : World :=
  { w with globals := w.globals.put x v }

/-- Overwrites the first binding of a name, if there is one. -/
def overwrite? (x : String) (v : Value) : List Bindings → Option (List Bindings)
  | [] => none
  | b :: bs => if b.binds x then some (b.put x v :: bs) else (overwrite? x v bs).map (b :: ·)

/-- Overwrites the innermost binding of a name, or else sets the global property. -/
def assign (w : World) (x : String) (v : Value) : World :=
  match overwrite? x v w.scopes with
  | some scopes => { w with scopes }
  | none => w.setGlobal x v

def enter (w : World) : World := { w with scopes := .empty :: w.scopes }

def leave (w : World) : World := { w with scopes := w.scopes.tail }

def complete (w : World) (v : Value) : World := { w with completion := v }

end World

/-- A computation on worlds that may end in a name without a value, with what it did up to there. -/
abbrev Eval := EStateM String World

/-- The value of a name. -/
def Eval.read (x : String) : Eval Value := fun w =>
  match w.lookup? x with
  | some v => .ok v w
  | none => .error x w

def UnaryOp.value : UnaryOp → Value → Value
  | .neg, v => .number (-v.toNumber)
  | .not, v => .bool (!v.truthy)

/-- The value of an expression, where `self` is the receiver. -/
def Expr.eval (self : Value) : Expr → Eval Value
  | .number x => pure (.number x)
  | .string s => pure (.string s)
  | .bool b => pure (.bool b)
  | .null => pure .null
  | .undefined => pure .undefined
  | .self => pure self
  | .name x => Eval.read x
  | .unary op e => do
    let v ← e.eval self
    pure (op.value v)
  | .binary op l r => do
    let a ← l.eval self
    let b ← r.eval self
    pure (op.value a b)
  | .assign x e => do
    let v ← e.eval self
    modify (·.assign x v)
    pure v

/-- The value that a declaration gives its name. -/
def initValue (self : Value) : Option Expr → Eval Value
  | none => pure .undefined
  | some e => e.eval self

mutual

def Stmt.eval (self : Value) : Stmt → Eval Unit
  | .empty _ => pure ()
  | .pause _ => pure ()
  | .declare _ how x init => do
    let v ← initValue self init
    match how with
    | .lexical => modify (·.define x v)
    | .globalProperty => modify (·.setGlobal x v)
  | .expr _ e => do
    let v ← e.eval self
    modify (·.complete v)
  | .block _ body => do
    modify World.enter
    evalBody self body
    modify World.leave

def evalBody (self : Value) : List Stmt → Eval Unit
  | [] => pure ()
  | s :: body => do
    s.eval self
    evalBody self body

end

/-! ### The world of a machine -/

/-- A change to a scope that is not among these shows in none of them. -/
theorem Scopes.map_read_define {i : ScopeId} {ids : List ScopeId} (hi : i ∉ ids) (s : Scopes)
    (x : String) (v : Value) : ids.map (s.define i x v).read = ids.map s.read := by
  refine List.map_congr_left fun j hj => ?_
  have hij : i ≠ j := fun e => hi (e.symm ▸ hj)
  exact read_define_ne hij s x v

/-- To overwrite the first binding in a list of scopes is to bind in the scope that owns the name. -/
theorem World.overwrite?_map_read {s : Scopes} {ids : List ScopeId} (hd : ids.Nodup)
    (hk : ∀ i ∈ ids, i < s.next) (x : String) (v : Value) :
    overwrite? x v (ids.map s.read) =
      (ids.find? fun i => (s.read i).binds x).map fun i => ids.map (s.define i x v).read := by
  induction ids with
  | nil => rfl
  | cons j ids ih =>
    obtain ⟨hj, hd⟩ := List.nodup_cons.1 hd
    obtain ⟨hjn, hk⟩ := List.forall_mem_cons.1 hk
    simp only [List.map_cons, overwrite?, List.find?_cons]
    by_cases hb : (s.read j).binds x = true
    · simp only [hb, if_true, Option.map_some]
      rw [Scopes.read_define_self hjn, Scopes.map_read_define hj]
    · simp only [hb, if_false, Bool.false_eq_true, ih hd hk, Option.map_map]
      cases hf : ids.find? fun i => (s.read i).binds x with
      | none => rfl
      | some i =>
        have hij : i ≠ j := fun e => hj (e ▸ List.mem_of_find?_eq_some hf)
        simp only [Option.map_some, Function.comp_apply, Scopes.read_define_ne hij]

namespace Machine

/-- What a script sees of a machine. -/
def world (m : Machine) : World :=
  ⟨m.frame.chain.ids.map m.scopes.read, m.globals, m.frame.result⟩

variable {m : Machine}

theorem lookup?_eq (m : Machine) (x : String) : m.lookup? x = m.world.lookup? x := by
  unfold lookup? World.lookup? Scopes.find?
  rw [world, List.findSome?_map]
  rfl

theorem world_define (h : m.WellScoped) (x : String) (v : Value) :
    (m.define x v).world = m.world.define x v := by
  have hi : m.frame.chain.inner < m.scopes.next := h.known _ List.mem_cons_self
  have ho : m.frame.chain.inner ∉ m.frame.chain.outer := (List.nodup_cons.1 h.nodup).1
  unfold world World.define
  simp only [Machine.define, Chain.ids, List.map_cons, List.modifyHead_cons]
  rw [Scopes.read_define_self hi, Scopes.map_read_define ho]

theorem world_setGlobal (m : Machine) (x : String) (v : Value) :
    (m.setGlobal x v).world = m.world.setGlobal x v := rfl

theorem world_assign (h : m.WellScoped) (x : String) (v : Value) :
    (m.assign x v).world = m.world.assign x v := by
  have hw : World.overwrite? x v m.world.scopes = _ :=
    World.overwrite?_map_read h.nodup h.known x v
  unfold Machine.assign World.assign Scopes.owner?
  rw [hw]
  cases m.frame.chain.ids.find? fun i => (m.scopes.read i).binds x with
  | none => rfl
  | some i => rfl

theorem world_enterBlock (m : Machine) : m.enterBlock.world = m.world.enter := by
  have hread : m.enterBlock.scopes.read = m.scopes.read := funext m.scopes.read_grow
  have hnew : m.scopes.read m.scopes.next = .empty := by
    simp [Scopes.read, Scopes.next]
  unfold world World.enter
  rw [hread]
  simp only [enterBlock, Chain.push, Chain.ids, List.map_cons, hnew]

theorem world_leaveBlock {m' : Machine} (h : m.leaveBlock? = some m') :
    m'.world = m.world.leave := by
  obtain ⟨c, hc, rfl⟩ := Option.map_eq_some_iff.1 h
  unfold Chain.around? at hc
  unfold world World.leave Chain.ids
  split at hc
  · cases hc
  · rename_i i is ho
    cases hc
    rw [ho]
    rfl

end Machine
end ScriptDebug
