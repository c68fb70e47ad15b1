/-
# The conversation at the console

Lines are answered one by one. A blank line repeats the last command, a line
that is no command is reported and forgotten, and the conversation ends at
`quit` or at the end of the input. Answers go to the output, errors and the
place where the program stands to the error output.

Key definitions: `Console.Output`, `Console.Conversation`, `Console.Conversation.answer`,
`Console.Conversation.answerAll`.
-/
import ScriptDebug.Console.Dispatch
import ScriptDebug.Console.Line
import ScriptDebug.Text.Lines

namespace ScriptDebug
namespace Console

/-- What is written to the output and to the error output. -/
structure Output where
  out : String
  err : String

namespace Output

def none : Output := ⟨"", ""⟩

def append (a b : Output) : Output := ⟨a.out ++ b.out, a.err ++ b.err⟩

/-- A line of the error output that tells of a failure. -/
def failure (e : DebugError) : Output := ⟨"", "❌ " ++ e.message ++ "\n"⟩

end Output

/-- The line of source at the counter, indented, if there is one. -/
def sourceLine (d : Debugger) : String :=
  match d.machine.frame.program.source.lines[d.line - 1]? with
  | some text => "    " ++ String.ofList (Text.trimEnd text.toList) ++ "\n"
  | none => ""

/-- Where the program stands, or its result once it has ended. -/
def whereabouts (d : Debugger) : Output :=
  if d.canRun then
    let place := d.machine.frame.program.placeAt d.machine.frame.pc
    ⟨"", s!"\n🔍 Stopped at {d.filename}:{place.line}:{place.column}\n" ++ sourceLine d⟩
  else ⟨"", "\n🏁 Program finished, result: " ++ d.machine.frame.result.text ++ "\n"⟩

/-- Whether a command moves the program on. -/
def Command.movesOn : Command → Bool
  | .debug .next | .debug .resume => true
  | _ => false

/-- The answer to a command whose report is `r`. -/
def reportOutput (c : Command) (r : Report) (d : Debugger) : Output :=
  let value : Output := ⟨match r.value with
    | some reply => reply.shown ++ "\n"
    | none => "", ""⟩
  let error := match r.error with
    | some e => Output.failure e
    | none => .none
  (value.append error).append (if c.movesOn then whereabouts d else .none)

/-- A debugger with the command that a blank line repeats. -/
structure Conversation where
  debugger : Debugger
  last : Option Command

/-- What follows a line: the conversation goes on, or it ends with an exit code. -/
inductive Turn where
  | goOn (c : Conversation) (o : Output)
  | quit (code : Int)

namespace Conversation

def start (d : Debugger) : Conversation := ⟨d, .none⟩

/-- Carries out a command, which a blank line repeats from then on. -/
def carryOut (c : Conversation) (command : Command) : Turn :=
  match dispatch c.debugger command with
  | (d, .report r) => .goOn ⟨d, some command⟩ (reportOutput command r d)
  | (_, .quit code) => .quit code

/-- Answers a line. -/
def answer (c : Conversation) (line : String) : Turn :=
  match Command.ofLine line c.debugger.filename with
  | .ok (some command) => c.carryOut command
  | .ok none =>
    match c.last with
    | some command => c.carryOut command
    | none => .goOn c .none
  | .error e => .goOn c (.failure e)

/-- Answers lines until one quits or none is left, and then the exit code is zero. -/
def answerAll (c : Conversation) (o : Output) : List String → Int × Output
  | [] => (0, o)
  | line :: lines =>
    match c.answer line with
    | .quit code => (code, o)
    | .goOn c more => c.answerAll (o.append more) lines

end Conversation

/-- A typed line after its backspaces, each of which takes back the character before it. `held` is
what stands so far, in reverse. -/
def takeBack (held : List Char) : List Char → List Char
  | [] => held.reverse
  | c :: cs => if c = '\x08' then takeBack held.tail cs else takeBack (c :: held) cs

/-- The lines of the input as they are typed. -/
def inputLines (input : String) : List String :=
  (Text.lines input.toList).toList.map fun line => String.ofList (takeBack [] line.toList)

end Console
end ScriptDebug
