/-
# Lines of the console

A line is a command word and its arguments. `exec` takes the rest of the line
as it stands, every other command takes words.

Key definitions: `Console.location`, `Console.Command.ofLine`.
-/
import ScriptDebug.Console.Command
import ScriptDebug.Console.Words

namespace ScriptDebug
namespace Console

/-- The words of the arguments. -/
def argumentWords (rest : List Char) : Except DebugError (List String) :=
  match words? rest with
  | some words => .ok words
  | none => .error (.usage .unbalancedQuotes)

/-- A line number. -/
def lineNumber (s : List Char) : Except DebugError Nat :=
  match Number.readNat? s with
  | some n => .ok n
  | none => .error (.usage .badLocation)

/-- The breakpoint that arguments name: a file and a line, both in one word with a colon between
them, or a line of the current file. -/
def location (currentFile : String) : List String → Except DebugError Breakpoint
  | [file, line] => (lineNumber line.toList).map (⟨file, ·⟩)
  | [word] =>
    match Number.readNat? word.toList with
    | some line => .ok ⟨currentFile, line⟩
    | none =>
      match Text.splitLast? ':' word.toList with
      | some (file, line) => (lineNumber line).map (⟨String.ofList file, ·⟩)
      | none => .error (.usage .badLocation)
  | _ => .error (.usage .badLocation)

/-- The exit code that arguments name, zero if there are none. -/
def exitCode : List String → Except DebugError Int
  | [] => .ok 0
  | word :: _ =>
    match Number.readInt? word.toList with
    | some code => .ok code
    | none => .error (.usage (.invalidExitCode word))

/-- A command of some kind with its arguments. -/
def Kind.command (currentFile : String) (rest : List Char) : Kind → Except DebugError Command
  | .setBreakpoint => do .ok (.setBreakpoint (← location currentFile (← argumentWords rest)))
  | .clearBreakpoint => do .ok (.clearBreakpoint (← location currentFile (← argumentWords rest)))
  | .breakpoints => .ok .breakpoints
  | .next => .ok (.debug .next)
  | .resume => .ok (.debug .resume)
  | .stepIn => .ok (.debug .stepIn)
  | .stepOut => .ok (.debug .stepOut)
  | .exec => .ok (.debug (.exec (String.ofList rest)))
  | .print => do .ok (.debug (.print ((← argumentWords rest).headD "")))
  | .list => .ok (.debug .list)
  | .help => .ok .help
  | .quit => do .ok (.quit (← exitCode (← argumentWords rest)))

/-- The command of a line, and none if the line is blank. -/
def Command.ofLine (line currentFile : String) : Except DebugError (Option Command) :=
  let trimmed := Text.trim line.toList
  if trimmed.isEmpty then .ok none
  else
    let word := String.ofList (trimmed.takeWhile (!Text.isBlank ·))
    let rest := Text.trim (trimmed.dropWhile (!Text.isBlank ·))
    match lookup? word with
    | none => .error (.usage (.unknownCommand word))
    | some entry => (entry.kind.command currentFile rest).map some

end Console
end ScriptDebug
