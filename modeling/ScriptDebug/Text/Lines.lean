/-
# Lines of a text

A line ends at a line feed, and a carriage return before the line feed belongs
to the end of the line. Text after the last line feed is a line of its own.

Key definitions: `Text.lines`.
-/
import ScriptDebug.Text.Blank

namespace ScriptDebug
namespace Text

/-- A line's text from its characters in reverse, without the carriage return that a line feed
follows. -/
def closeLine : List Char → String
  | '\r' :: cs => String.ofList cs.reverse
  | cs => String.ofList cs.reverse

/-- Appends the lines of a text, where `line` holds the characters of the line under way in
reverse. -/
def splitLines (done : Array String) (line : List Char) : List Char → Array String
  | [] => if line.isEmpty then done else done.push (String.ofList line.reverse)
  | '\n' :: cs => splitLines (done.push (closeLine line)) [] cs
  | c :: cs => splitLines done (c :: line) cs

def lines (s : List Char) : Array String := splitLines #[] [] s

end Text
end ScriptDebug
