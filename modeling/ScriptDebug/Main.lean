/-
# The program

Reads the arguments and the files they name, and holds the conversation over
the standard input: each line is answered before the next one is read.

Key definitions: `main`.
-/
import ScriptDebug.CommandLine

namespace ScriptDebug

/-- The text of a file, or none if it cannot be read as text. -/
def readText (path : String) : IO (Option String) := do
  try
    return some (← IO.FS.readFile path)
  catch _ =>
    return none

def write (o : Console.Output) : IO Unit := do
  IO.print o.out
  (← IO.getStdout).flush
  IO.eprint o.err

/-- Answers the lines of the standard input until one quits or none is left. -/
partial def converseOnInput (c : Console.Conversation) : IO UInt32 := do
  let input ← (← IO.getStdin).getLine
  match Console.inputLines input with
  | [] => return 0
  | line :: _ =>
    match c.answer line with
    | .quit code => return (CommandLine.exitStatus code).toUInt32
    | .goOn c o =>
      write o
      converseOnInput c

end ScriptDebug

open ScriptDebug in
def main (args : List String) : IO UInt32 := do
  let showsColor ← (← IO.getStdout).isTty
  match ← CommandLine.start readText showsColor args with
  | .error e =>
    IO.eprintln e.written
    return e.code.toUInt32
  | .ok d =>
    write (Console.whereabouts d)
    converseOnInput (Console.Conversation.start d)
