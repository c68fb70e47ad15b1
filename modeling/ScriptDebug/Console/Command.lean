/-
# The vocabulary of the console

Every command has a long name, most have a short one, and each has a line of
help. What a command word means is the row of the table that holds it.

Key definitions: `Console.Command`, `Console.Kind`, `Console.Entry`,
`Console.entries`, `Console.lookup?`, `Console.help`.
-/
import ScriptDebug.Debugger.Command

namespace ScriptDebug
namespace Console

/-- A line typed at the console, understood. -/
inductive Command where
  | setBreakpoint (b : Breakpoint)
  | clearBreakpoint (b : Breakpoint)
  | breakpoints
  | debug (c : ScriptDebug.Command)
  | help
  | quit (code : Int)
  deriving DecidableEq, Repr

/-- What a command word asks for, without its arguments. -/
inductive Kind where
  | setBreakpoint
  | clearBreakpoint
  | breakpoints
  | next
  | resume
  | stepIn
  | stepOut
  | exec
  | print
  | list
  | help
  | quit
  deriving DecidableEq, Repr

/-- A row of the vocabulary. -/
structure Entry where
  short : Option String
  long : String
  kind : Kind
  help : String
  deriving DecidableEq, Repr

/-- The vocabulary, in the order in which help shows it. -/
def entries : List Entry :=
  [⟨some "sb", "setBreakpoint", .setBreakpoint, "Set a breakpoint on a given file and line"⟩,
    ⟨some "cb", "clearBreakpoint", .clearBreakpoint, "Clear a breakpoint on a given file and line"⟩,
    ⟨none, "breakpoints", .breakpoints, "List all known breakpoints"⟩,
    ⟨some "n", "next", .next, "Continue to next line in current file"⟩,
    ⟨some "c", "continue", .resume, "Resume execution until next debugger line"⟩,
    ⟨some "s", "step", .stepIn,
      "Step into, potentially entering a function (not implemented yet)"⟩,
    ⟨some "o", "out", .stepOut, "Step out, leaving the current function (not implemented yet)"⟩,
    ⟨some "e", "exec", .exec, "Evaluate the expression and print the value"⟩,
    ⟨some "p", "print", .print, "Print the provided variable's value"⟩,
    ⟨some "l", "list", .list,
      "Print the source around the current line where execution is currently paused"⟩,
    ⟨some "h", "help", .help, "Print this very help message"⟩,
    ⟨some "q", "quit", .quit, "Exit debugger and quit (Ctrl+C)"⟩]

/-- The row that a word names, by its long or its short name. -/
def lookup? (word : String) : Option Entry :=
  entries.find? fun e => e.long == word || e.short == some word

/-- The names of a row: the long one, and the short one if there is any. -/
def Entry.names (e : Entry) : String :=
  match e.short with
  | some short => s!"{e.long}, {short}"
  | none => e.long

/-- A text filled up with spaces to a width. -/
def padRight (width : Nat) (s : String) : String :=
  s ++ String.ofList (List.replicate (width - s.length) ' ')

/-- The vocabulary in two columns, the first as wide as its longest text and three spaces more. -/
def help : String :=
  let width := (entries.map (·.names.length)).foldl max 0 + 3
  String.join (entries.map fun e => padRight width e.names ++ e.help ++ "\n")

end Console
end ScriptDebug
