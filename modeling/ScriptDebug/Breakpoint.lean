/-
# Breakpoints

A breakpoint is a line of a named file. The registered ones form a list without
repetition, in the order in which they were set.

Key definitions: `Breakpoint`, `Breakpoints.set?`, `Breakpoints.clear?`, `Breakpoint.ofSpec?`.
-/
import ScriptDebug.Number.Literal

namespace ScriptDebug

structure Breakpoint where
  filename : String
  line : Nat
  deriving DecidableEq, Repr

/-- The written form, `FILE:LINE`. -/
def Breakpoint.text (b : Breakpoint) : String := s!"{b.filename}:{b.line}"

/-- Parts a text at its last occurrence of a character. -/
def Text.splitLast? (c : Char) (s : List Char) : Option (List Char × List Char) :=
  if c ∈ s then
    let after := (s.reverse.takeWhile (· ≠ c)).reverse
    some (s.take (s.length - after.length - 1), after)
  else none

/-- Reads `FILE:LINE`, parted at the last colon so that a file's name may hold colons. Blanks around
the line do not count; an empty name and line zero are refused. -/
def Breakpoint.ofSpec? (spec : String) : Option Breakpoint := do
  let (file, line) ← Text.splitLast? ':' spec.toList
  let n ← Number.readNat? (Text.trim line)
  if file.isEmpty || n = 0 then none else some ⟨String.ofList file, n⟩

/-- The registered breakpoints. -/
structure Breakpoints where
  points : List Breakpoint
  deriving DecidableEq, Repr

namespace Breakpoints

def empty : Breakpoints := ⟨[]⟩

def contains (r : Breakpoints) (b : Breakpoint) : Bool := r.points.contains b

/-- Registers a breakpoint that is not registered yet. -/
def set? (r : Breakpoints) (b : Breakpoint) : Option Breakpoints :=
  if r.contains b then none else some ⟨r.points ++ [b]⟩

/-- Removes a breakpoint that is registered. -/
def clear? (r : Breakpoints) (b : Breakpoint) : Option Breakpoints :=
  if r.contains b then some ⟨r.points.erase b⟩ else none

end Breakpoints
end ScriptDebug
