/-
# Source texts

A source is a named text with the byte offset at which each of its lines
starts. Offsets count UTF-8 bytes from zero, lines and columns from one, and
only a line feed ends a line.

Key definitions: `Source`, `Source.ofText`, `Source.lineCol`.
-/
import ScriptDebug.Search
import ScriptDebug.Text.Lines

namespace ScriptDebug

/-- The offset at `o` and those after each line feed of the text that begins at `o`. -/
def lineStarts (starts : Array Nat) (o : Nat) : List Char → Array Nat
  | [] => starts
  | c :: cs =>
    let next := o + c.utf8Size
    lineStarts (if c = '\n' then starts.push next else starts) next cs

/-- A named text, with its lines and the offsets at which they start. -/
structure Source where
  name : String
  text : String
  starts : Array Nat
  lines : Array String
  starts_eq : starts = lineStarts #[0] 0 text.toList := by rfl
  lines_eq : lines = Text.lines text.toList := by rfl

namespace Source

def ofText (name text : String) : Source :=
  { name, text, starts := lineStarts #[0] 0 text.toList, lines := Text.lines text.toList }

/-- A line and a column, both counted from one. -/
structure Place where
  line : Nat
  column : Nat
  deriving DecidableEq, Repr

/-- The place of a byte offset. Past the end the last line goes on. -/
def lineCol (s : Source) (offset : Nat) : Place :=
  let line := Search.count (fun i => s.starts.getD i 0) offset s.starts.size
  { line, column := offset - s.starts.getD (line - 1) 0 + 1 }

end Source
end ScriptDebug
