/-
# Programs

A program is code with its constants and the source it came from. The first
instruction of a statement has a mark, the byte offset of the statement, and so
has the one that leaves a block, with the offset of the closing brace; the
instructions after them inherit the mark.

Key definitions: `Mark`, `Program`, `Program.placeAt`, `Program.nextLine`.
-/
import ScriptDebug.Program.Instruction
import ScriptDebug.Source
import ScriptDebug.Value

namespace ScriptDebug

/-- The instruction at `pc` comes from the byte `offset` of the source. -/
structure Mark where
  pc : Nat
  offset : Nat
  deriving DecidableEq, Repr

structure Program where
  source : Source
  code : Array Instruction
  constants : Array Value
  marks : Array Mark

namespace Program

/-- The offset of the last mark at or before `pc`, and zero before the first. -/
def offsetAt (p : Program) (pc : Nat) : Nat :=
  match Search.count (fun i => (p.marks[i]?.map Mark.pc).getD 0) pc p.marks.size with
  | 0 => 0
  | i + 1 => (p.marks[i]?.map Mark.offset).getD 0

def placeAt (p : Program) (pc : Nat) : Source.Place := p.source.lineCol (p.offsetAt pc)

def lineAt (p : Program) (pc : Nat) : Nat := (p.placeAt pc).line

/-- The first line above `line` among those of the `n` instructions from `pc` on, and zero if none
is. -/
def lineBeyond (p : Program) (line : Nat) : Nat → Nat → Nat
  | 0, _ => 0
  | n + 1, pc => if line < p.lineAt pc then p.lineAt pc else p.lineBeyond line n (pc + 1)

/-- The first line after `pc` that is further down the text than the line of `pc`, and zero if none
is. -/
def nextLine (p : Program) (pc : Nat) : Nat :=
  p.lineBeyond (p.lineAt pc) (p.code.size - (pc + 1)) (pc + 1)

/-- The constants between square brackets, parted by single spaces. -/
def constantsText (p : Program) : String :=
  "[" ++ " ".intercalate (p.constants.toList.map Value.text) ++ "]"

end Program
end ScriptDebug
