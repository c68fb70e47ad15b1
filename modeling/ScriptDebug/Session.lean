/-
# Sessions

A gate ends one cycle of pausing: who waits at it goes on once it is released,
and it stays released. A session has a present gate, which a new cycle replaces
by a fresh one, and a cursor: the current line and the lines that commands were
given on, without repetition of neighbours.

Key definitions: `Gates`, `Phase`, `Session`, `Session.release`, `Session.reactivate`.
Key theorems: `Gates.isReleased_grow`, `Gates.isReleased_release_self`,
`Gates.isReleased_release_ne`.
-/

namespace ScriptDebug

abbrev GateId := Nat

/-- All gates so far, each released or not. -/
structure Gates where
  released : Array Bool
  deriving DecidableEq, Repr

namespace Gates

/-- The handle that the next gate gets. -/
def next (g : Gates) : GateId := g.released.size

/-- One more gate, not released. -/
def grow (g : Gates) : Gates := ⟨g.released.push false⟩

def isReleased (g : Gates) (i : GateId) : Bool := g.released.getD i false

def release (g : Gates) (i : GateId) : Gates := ⟨g.released.setIfInBounds i true⟩

/-- A fresh gate is not released, and every other one stays as it was. -/
theorem isReleased_grow (g : Gates) (i : GateId) : g.grow.isReleased i = g.isReleased i := by
  simp only [isReleased, grow, Array.getD_eq_getD_getElem?, Array.getElem?_push]
  by_cases h : i = g.released.size
  · rw [if_pos h, h, Array.getElem?_eq_none (Nat.le_refl _)]
    rfl
  · rw [if_neg h]

theorem isReleased_release_self {g : Gates} {i : GateId} (h : i < g.next) :
    (g.release i).isReleased i = true := by
  have h : i < g.released.size := h
  simp only [isReleased, release, Array.getD_eq_getD_getElem?, Array.getElem?_setIfInBounds]
  rw [if_pos trivial, if_pos h]
  rfl

theorem isReleased_release_ne {i j : GateId} (h : i ≠ j) (g : Gates) :
    (g.release i).isReleased j = g.isReleased j := by
  simp only [isReleased, release, Array.getD_eq_getD_getElem?, Array.getElem?_setIfInBounds]
  rw [if_neg h]

/-- What is no gate yet is not released. -/
theorem isReleased_of_next_le {g : Gates} {i : GateId} (h : g.next ≤ i) :
    g.isReleased i = false := by
  have h : g.released.size ≤ i := h
  rw [isReleased, Array.getD_eq_getD_getElem?, Array.getElem?_eq_none h]
  rfl

theorem next_grow (g : Gates) : g.grow.next = g.next + 1 := Array.size_push _

theorem next_release (g : Gates) (i : GateId) : (g.release i).next = g.next :=
  Array.size_setIfInBounds

/-- Releasing takes no release back. -/
theorem isReleased_release_of {g : Gates} {j : GateId} (h : g.isReleased j = true) (i : GateId) :
    (g.release i).isReleased j = true := by
  by_cases hij : i = j
  · rcases Nat.lt_or_ge j g.next with hlt | hge
    · rw [hij]
      exact isReleased_release_self hlt
    · rw [isReleased_of_next_le hge] at h
      cases h
  · rw [isReleased_release_ne hij]
    exact h

end Gates

inductive Phase where
  | paused
  | running
  | released
  deriving DecidableEq, Repr

/-- The state of a session. The history of lines begins with a zero, which is no line. -/
structure Session where
  gates : Gates
  gate : GateId
  phase : Phase
  currentLine : Nat
  lastLines : Array Nat
  deriving DecidableEq, Repr

namespace Session

def start : Session :=
  { gates := ⟨#[false]⟩, gate := 0, phase := .paused, currentLine := 0, lastLines := #[0] }

/-- Whether the present gate is released. -/
def isReleased (s : Session) : Bool := s.gates.isReleased s.gate

/-- Releases the present gate. -/
def release (s : Session) : Session :=
  { s with gates := s.gates.release s.gate, phase := .released }

/-- Begins a new cycle of pausing behind a fresh gate. -/
def reactivate (s : Session) : Session :=
  { s with gates := s.gates.grow, gate := s.gates.next, phase := .paused }

/-- The last line of the history. -/
def lastLine (s : Session) : Nat := s.lastLines.back?.getD s.currentLine

/-- Appends a line to the history unless it is the last one already. -/
def pushLine (s : Session) (line : Nat) : Session :=
  if s.lastLines.back? = some line then s else { s with lastLines := s.lastLines.push line }

end Session
end ScriptDebug
