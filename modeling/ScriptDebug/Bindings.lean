/-
# Bindings

Names with their values, each name once, in the order in which the names first
came. One scope holds bindings, and so does an object as its properties.

Key definitions: `Bindings`, `Bindings.get?`, `Bindings.put`, `Bindings.names`.
Key theorems: `Bindings.get?_put`, `Bindings.names_put`, `Bindings.binds_iff`.
-/
import ScriptDebug.Value

namespace ScriptDebug

structure Bindings where
  entries : List (String × Value)
  deriving Repr, Inhabited

namespace Bindings

def empty : Bindings := ⟨[]⟩

def get? (b : Bindings) (x : String) : Option Value := b.entries.lookup x

def names (b : Bindings) : List String := b.entries.map Prod.fst

def binds (b : Bindings) (x : String) : Bool := (b.get? x).isSome

/-- Overwrites the entry of a name, or appends one. -/
def putEntry (x : String) (v : Value) : List (String × Value) → List (String × Value)
  | [] => [(x, v)]
  | (y, w) :: es => if x == y then (y, v) :: es else (y, w) :: putEntry x v es

def put (b : Bindings) (x : String) (v : Value) : Bindings := ⟨putEntry x v b.entries⟩

theorem lookup_putEntry (x y : String) (v : Value) (es : List (String × Value)) :
    (putEntry x v es).lookup y = if y = x then some v else es.lookup y := by
  induction es with
  | nil => simp only [putEntry]; grind
  | cons e es ih =>
    simp only [putEntry]
    split <;> grind

/-- A name has the value put last, and every other name keeps its own. -/
theorem get?_put (b : Bindings) (x y : String) (v : Value) :
    (b.put x v).get? y = if y = x then some v else b.get? y :=
  lookup_putEntry x y v b.entries

theorem map_fst_putEntry (x : String) (v : Value) (es : List (String × Value)) :
    (putEntry x v es).map Prod.fst =
      if x ∈ es.map Prod.fst then es.map Prod.fst else es.map Prod.fst ++ [x] := by
  induction es with
  | nil => simp [putEntry]
  | cons e es ih =>
    simp only [putEntry]
    split <;> simp only [List.map_cons, ih] <;> grind

/-- A name that is bound keeps its place, and a new one comes last. -/
theorem names_put (b : Bindings) (x : String) (v : Value) :
    (b.put x v).names = if x ∈ b.names then b.names else b.names ++ [x] :=
  map_fst_putEntry x v b.entries

/-- The names that are bound are those with an entry. -/
theorem binds_iff (b : Bindings) (x : String) : b.binds x = true ↔ x ∈ b.names := by
  simp only [binds, get?, names, List.lookup_isSome_iff, List.mem_map, beq_iff_eq]
  constructor
  · rintro ⟨e, he, rfl⟩
    exact ⟨e, he, rfl⟩
  · rintro ⟨e, he, rfl⟩
    exact ⟨e, he, rfl⟩

end Bindings
end ScriptDebug
