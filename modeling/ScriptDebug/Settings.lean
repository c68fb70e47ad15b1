/-
# Settings

How a session is set up: breakpoints, whether to stop on entry, how listings
look, where the history is kept and how much is told. Each setting has a
default.

Key definitions: `Settings`, `Settings.default`, `Settings.listOptions`, `Settings.level`.
-/
import ScriptDebug.Journal
import ScriptDebug.Listing

namespace ScriptDebug

structure Settings where
  breakpoints : List Breakpoint
  stopOnEntry : Bool
  listStyle : ListStyle
  listRadius : Nat
  color : Bool
  historyFile : Option String
  logLevel : Option String
  deriving DecidableEq, Repr

/-- The name of a level that is none. -/
structure UnknownLevel where
  name : String
  deriving DecidableEq, Repr

namespace Settings

def default : Settings :=
  { breakpoints := []
    stopOnEntry := true
    listStyle := ListOptions.default.style
    listRadius := ListOptions.default.radius
    color := ListOptions.default.color
    historyFile := none
    logLevel := none }

def listOptions (s : Settings) : ListOptions := ⟨s.listStyle, s.listRadius, s.color⟩

/-- The level of the journal, warnings if none is set. -/
def level (s : Settings) : Except UnknownLevel Level :=
  match s.logLevel with
  | none => .ok .warn
  | some name =>
    match Level.ofText? name with
    | some level => .ok level
    | none => .error ⟨name⟩

end Settings
end ScriptDebug
