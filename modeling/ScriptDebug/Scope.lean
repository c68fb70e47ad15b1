/-
# Scopes

Scopes live in a store and are known by their handles, so two frames that see
one scope see each other's writes. A chain names the scopes visible at a point,
the innermost first; it never changes, a block only puts a new scope before it.

Key definitions: `ScopeId`, `Chain`, `Scopes`, `Scopes.find?`, `Scopes.owner?`.
Key theorems: `Scopes.read_define_self`, `Scopes.read_define_ne`, `Scopes.read_grow`.
-/
import ScriptDebug.Bindings

namespace ScriptDebug

abbrev ScopeId := Nat

/-- The scopes visible at a point: the innermost one, and those around it from the inside out. -/
structure Chain where
  inner : ScopeId
  outer : List ScopeId
  deriving DecidableEq, Repr

namespace Chain

/-- All scopes of the chain, the innermost first. -/
def ids (c : Chain) : List ScopeId := c.inner :: c.outer

/-- The chain inside one more scope. -/
def push (c : Chain) (i : ScopeId) : Chain := ⟨i, c.ids⟩

/-- The chain around the innermost scope. -/
def around? (c : Chain) : Option Chain :=
  match c.outer with
  | [] => none
  | i :: is => some ⟨i, is⟩

end Chain

/-- The store of scopes. -/
structure Scopes where
  cells : Array Bindings
  deriving Repr, Inhabited

namespace Scopes

/-- One scope without bindings. -/
def start : Scopes := ⟨#[.empty]⟩

/-- The handle that the next scope gets. -/
def next (s : Scopes) : ScopeId := s.cells.size

def grow (s : Scopes) : Scopes := ⟨s.cells.push .empty⟩

/-- The bindings of a scope. -/
def read (s : Scopes) (i : ScopeId) : Bindings := s.cells.getD i .empty

/-- Binds a name in one scope. -/
def define (s : Scopes) (i : ScopeId) (x : String) (v : Value) : Scopes :=
  ⟨s.cells.modify i (·.put x v)⟩

/-- Overwrites a name that one scope binds. -/
def assign? (s : Scopes) (i : ScopeId) (x : String) (v : Value) : Option Scopes :=
  if (s.read i).binds x then some (s.define i x v) else none

/-! ### Reading after a change -/

/-- A new scope binds nothing, so every scope reads as before. -/
theorem read_grow (s : Scopes) (i : ScopeId) : s.grow.read i = s.read i := by
  simp only [read, grow, Array.getD_eq_getD_getElem?, Array.getElem?_push]
  by_cases h : i = s.cells.size
  · rw [if_pos h, h, Array.getElem?_eq_none (Nat.le_refl _)]
    rfl
  · rw [if_neg h]

theorem next_grow (s : Scopes) : s.grow.next = s.next + 1 := Array.size_push _

theorem next_define (s : Scopes) (i : ScopeId) (x : String) (v : Value) :
    (s.define i x v).next = s.next := Array.size_modify

/-- The scope that a name is bound in gets the binding. -/
theorem read_define_self {s : Scopes} {i : ScopeId} (h : i < s.next) (x : String) (v : Value) :
    (s.define i x v).read i = (s.read i).put x v := by
  simp only [read, define, Array.getD_eq_getD_getElem?, Array.getElem?_modify]
  have h : i < s.cells.size := h
  rw [if_pos trivial, Array.getElem?_eq_getElem h]
  rfl

/-- Every other scope keeps its bindings. -/
theorem read_define_ne {i j : ScopeId} (h : i ≠ j) (s : Scopes) (x : String) (v : Value) :
    (s.define i x v).read j = s.read j := by
  simp only [read, define, Array.getD_eq_getD_getElem?, Array.getElem?_modify]
  rw [if_neg h]

/-- Only a scope in the store binds names. -/
theorem lt_next_of_binds {s : Scopes} {i : ScopeId} {x : String} (h : (s.read i).binds x = true) :
    i < s.next := by
  by_cases hi : i < s.next
  · exact hi
  · have hread : s.read i = .empty := by
      rw [read, Array.getD_eq_getD_getElem?, Array.getElem?_eq_none (Nat.le_of_not_lt hi)]
      rfl
    rw [hread] at h
    cases h

/-! ### Looking up along a chain -/

/-- The innermost scope of a chain that binds a name. -/
def owner? (s : Scopes) (c : Chain) (x : String) : Option ScopeId :=
  c.ids.find? fun i => (s.read i).binds x

/-- The value of a name in the innermost scope that binds it. -/
def find? (s : Scopes) (c : Chain) (x : String) : Option Value :=
  c.ids.findSome? fun i => (s.read i).get? x

end Scopes
end ScriptDebug
