/-
# The command line

Arguments name a script and, by options, a settings file, breakpoints and what
overrides the settings. Starting reads the settings, then the script, sets the
breakpoints, and moves to the first stop point unless the session stops on
entry. Files are read through a function, so that starting is the same wherever
they come from.

A start error holds no cause: neither its message nor what is written of it tells
why a file cannot be read, or what is wrong with the JSON of a settings file.
Refused arguments are answered with a usage line only.

Key definitions: `CommandLine.Options`, `CommandLine.parse?`, `CommandLine.StartError`,
`CommandLine.StartError.written`, `CommandLine.start`, `CommandLine.converse`.
-/
import ScriptDebug.Console.Conversation
import ScriptDebug.Settings.OfJson
import ScriptDebug.Text.Quoted

namespace ScriptDebug

/-! ### Errors as records -/

/-- The kind of a fault with what it holds. -/
def Fault.record : Fault → String
  | .unbound x => "Reference(" ++ Text.quoted x ++ ")"
  | .unresolvedOperand x => "Type(" ++ Text.quoted s!"cannot operate on unresolved `{x}`" ++ ")"
  | .broken b => "Internal(" ++ Text.quoted b.text ++ ")"

/-- The parts of a syntax error with their names. -/
def SyntaxError.record (e : SyntaxError) : String :=
  let message := Text.quoted e.problem.detail
  let file := Text.quoted e.file
  let line := e.place.line
  let column := e.place.column
  s!"SyntaxError \x7b message: {message}, file: {file}, line: {line}, column: {column} \x7d"

/-- The kind of a failure with what it holds, which is its message for most kinds. -/
def DebugError.record (e : DebugError) : String :=
  match e with
  | .usage _ => "Usage(" ++ Text.quoted e.message ++ ")"
  | .notFound _ => "NotFound(" ++ Text.quoted e.message ++ ")"
  | .duplicate => "Duplicate(" ++ Text.quoted e.message ++ ")"
  | .misread error => "Syntax(" ++ error.record ++ ")"
  | .evaluation _ | .unrecoverable => "Evaluation(" ++ Text.quoted e.message ++ ")"
  | .unresolved name => "UnresolvedReference(" ++ Text.quoted name ++ ")"
  | .receiverFallback name => "ReceiverFallback(" ++ Text.quoted name ++ ")"
  | .unimplemented => "Unimplemented"
  | .execution fault => "Execution(" ++ fault.record ++ ")"

namespace CommandLine

/-- What the arguments ask for. -/
structure Options where
  script : String
  config : Option String
  breaks : List String
  noStopOnEntry : Bool
  noColor : Bool
  logLevel : Option String
  deriving DecidableEq, Repr

/-- Arguments under way: the options so far, of which the script may still be missing. -/
structure Draft where
  script : Option String
  options : Options

def Draft.empty : Draft := ⟨none, ⟨"", none, [], false, false, none⟩⟩

/-- The options that take a value. -/
inductive Valued where
  | config
  | breakpoint
  | logLevel
  deriving DecidableEq, Repr

def Valued.ofName? (name : String) : Option Valued :=
  if name = "--config" then some .config
  else if name = "--break" then some .breakpoint
  else if name = "--log-level" then some .logLevel
  else none

/-- Whether an argument can be the value of an option that stands before it. -/
def isValue (s : String) : Bool := s = "-" || !s.startsWith "-"

/-- Gives an option its value. Only breakpoints may come more than once, and a path is not empty. -/
def Draft.put? (d : Draft) (v : String) : Valued → Option Draft
  | .config =>
    if d.options.config.isSome || v.isEmpty then none
    else some { d with options := { d.options with config := some v } }
  | .breakpoint => some { d with options := { d.options with breaks := d.options.breaks ++ [v] } }
  | .logLevel =>
    if d.options.logLevel.isSome then none
    else some { d with options := { d.options with logLevel := some v } }

/-- Sets a flag that is not set yet. -/
def Draft.flag? (d : Draft) (name : String) : Option Draft :=
  if name = "--no-stop-on-entry" then
    if d.options.noStopOnEntry then none
    else some { d with options := { d.options with noStopOnEntry := true } }
  else if name = "--no-color" then
    if d.options.noColor then none
    else some { d with options := { d.options with noColor := true } }
  else none

/-- Takes the script, of which there is one. -/
def Draft.script? (d : Draft) (s : String) : Option Draft :=
  if d.script.isSome || s.isEmpty then none else some { d with script := some s }

/-- An option's name and the value written into the same argument, after an equals sign. -/
def splitValue (s : String) : String × Option String :=
  match s.toList.dropWhile (· ≠ '=') with
  | [] => (s, none)
  | _ :: value => (String.ofList (s.toList.takeWhile (· ≠ '=')), some (String.ofList value))

/-- Takes an argument that begins with two dashes. With it goes the next one, if that is its value;
the arguments that are left come along. -/
def Draft.option? (d : Draft) (s : String) (rest : List String) : Option (Draft × List String) :=
  let (name, inline) := splitValue s
  match Valued.ofName? name, inline with
  | some option, some value => (d.put? value option).map (·, rest)
  | some option, none =>
    match rest with
    | value :: rest => if isValue value then (d.put? value option).map (·, rest) else none
    | [] => none
  | none, none => (d.flag? name).map (·, rest)
  | none, some _ => none

/-- Takes arguments of which all are scripts. -/
def Draft.scripts? (d : Draft) : List String → Option Draft
  | [] => some d
  | s :: rest => (d.script? s).bind (·.scripts? rest)

/-- Takes arguments, at most `n` of them. A lone `--` ends the options. -/
def Draft.takeArgs? (d : Draft) : Nat → List String → Option Draft
  | _, [] => some d
  | 0, _ => none
  | n + 1, s :: rest =>
    if s = "--" then d.scripts? rest
    else if s.startsWith "--" then
      (d.option? s rest).bind fun (d, rest) => d.takeArgs? n rest
    else if s = "-" || !s.startsWith "-" then (d.script? s).bind (·.takeArgs? n rest)
    else none

/-- The options of a list of arguments, unless they are refused. -/
def parse? (args : List String) : Option Options :=
  (Draft.empty.takeArgs? args.length args).bind fun d =>
    d.script.map fun script => { d.options with script }

/-! ### Starting a session -/

/-- Why a session does not start. -/
inductive StartError where
  | arguments
  | settingsUnreadable (path : String)
  | settings (path : String) (refusal : Json.Refusal)
  | breakpoint (spec : String)
  | logLevel (name : String)
  | scriptUnreadable (path : String)
  | script (error : SyntaxError)
  | program (error : DebugError)

/-- The exit code of a session that does not start. -/
def StartError.code : StartError → Nat
  | .arguments => 2
  | _ => 1

/-- The message of a start error without its cause. Where a script cannot be read, the cause would
be all of it; there the path is named. -/
def StartError.message : StartError → String
  | .arguments => "usage: [--config FILE] [--break FILE:LINE]... [--no-stop-on-entry] " ++
      "[--no-color] [--log-level LEVEL] SCRIPT"
  | .settingsUnreadable path => "cannot read config " ++ path
  | .settings path _ => "invalid config " ++ path
  | .breakpoint spec => s!"invalid breakpoint `{spec}`, expected FILE:LINE"
  | .logLevel name => s!"unknown log level `{name}`"
  | .scriptUnreadable path => "cannot read script " ++ path
  | .script e => e.message
  | .program e => e.message

/-- What the error output gets when a session does not start: not the message, but the kind of the
error with what it holds. Two dots stand for a cause. -/
def StartError.written (e : StartError) : String :=
  match e with
  | .arguments => e.message
  | .settingsUnreadable path => "Error: Io \x7b path: " ++ Text.quoted path ++ ", .. \x7d"
  | .settings path _ => "Error: Parse \x7b path: " ++ Text.quoted path ++ ", .. \x7d"
  | .breakpoint spec => "Error: Breakpoint(" ++ Text.quoted spec ++ ")"
  | .logLevel name => "Error: LogLevel(" ++ Text.quoted name ++ ")"
  | .scriptUnreadable _ => "Error: Os \x7b .. \x7d"
  | .script error => "Error: " ++ error.record
  | .program error => "Error: " ++ error.record

/-- Reads the breakpoints that options give. -/
def readBreaks : List String → Except StartError (List Breakpoint)
  | [] => .ok []
  | spec :: specs =>
    match Breakpoint.ofSpec? spec with
    | some b => (readBreaks specs).map (b :: ·)
    | none => .error (.breakpoint spec)

/-- The settings after what the options override. -/
def override (o : Options) (s : Settings) : Except StartError Settings := do
  let breaks ← readBreaks o.breaks
  .ok { s with
    breakpoints := s.breakpoints ++ breaks
    stopOnEntry := s.stopOnEntry && !o.noStopOnEntry
    color := s.color && !o.noColor
    logLevel := o.logLevel.or s.logLevel }

/-- The settings of a file's text, or the defaults if no file is named. -/
def settingsOf (path : String) (text : Option String) : Except StartError Settings :=
  match text with
  | none => .error (.settingsUnreadable path)
  | some text =>
    match Settings.ofJson text with
    | .ok s => .ok s
    | .error refusal => .error (.settings path refusal)

/-- Sets a breakpoint at the start. One that is there already is passed over. -/
def setAtStart (d : Debugger) (b : Breakpoint) : Debugger :=
  match d.setBreakpoint b with
  | (d, .ok ()) => d
  | (d, .error _) => d.tell (.breakpointIgnored b)

/-- A session of a compiled script that has not moved yet, with the configured breakpoints. In
listings colour is used only where the output can show it. -/
def prepare (settings : Settings) (showsColor : Bool) (p : Program) : Debugger :=
  let options := { settings.listOptions with color := settings.color && showsColor }
  settings.breakpoints.foldl setAtStart (Debugger.start (.start p) options)

/-- Moves to the first stop point unless the session stops on entry or opens with a marker. -/
def position (settings : Settings) (d : Debugger) : Except DebugError Debugger :=
  if settings.stopOnEntry || d.isBreakOnStart then .ok d
  else match d.runToPause with
    | (d, .ok ()) => .ok d
    | (_, .error e) => .error e

/-- The session of a script's text. -/
def open? (settings : Settings) (showsColor : Bool) (path text : String) :
    Except StartError Debugger := do
  let p ← (Program.ofSource (Source.ofText path text) .script).mapError .script
  (position settings (prepare settings showsColor p)).mapError .program

/-- Checks that the settings name a level. -/
def checkLevel (s : Settings) : Except StartError Unit :=
  match s.level with
  | .ok _ => .ok ()
  | .error e => .error (.logLevel e.name)

/-- The settings of options. -/
def settingsFor {m : Type → Type} [Monad m] (readFile : String → m (Option String)) (o : Options) :
    m (Except StartError Settings) := do
  let base ← match o.config with
    | none => pure (.ok Settings.default)
    | some path => settingsOf path <$> readFile path
  pure do
    let s ← override o (← base)
    checkLevel s
    .ok s

/-- Starts a session from arguments. The settings are read and checked before the script is. -/
def start {m : Type → Type} [Monad m] (readFile : String → m (Option String)) (showsColor : Bool)
    (args : List String) : m (Except StartError Debugger) :=
  match parse? args with
  | none => pure (.error .arguments)
  | some o => do
    match ← settingsFor readFile o with
    | .error e => pure (.error e)
    | .ok settings =>
      match ← readFile o.script with
      | none => pure (.error (.scriptUnreadable o.script))
      | some text => pure (open? settings showsColor o.script text)

/-- The exit status of a code: what is left of it in one byte. -/
def exitStatus (code : Int) : Nat := (code % 256).toNat

/-- A whole session over an input: the exit code and what is written. -/
def converse (d : Debugger) (input : String) : Int × Console.Output :=
  (Console.Conversation.start d).answerAll (Console.whereabouts d) (Console.inputLines input)

end CommandLine
end ScriptDebug
