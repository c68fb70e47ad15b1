import ScriptDebug.Main
import ScriptDebug.Proofs.Fragment.Restoration
import ScriptDebug.Proofs.Script.Lexeme
import ScriptDebug.Proofs.Script.Vocabulary
import ScriptDebug.Proofs.Machine.Shape
import ScriptDebug.Proofs.Program.Code
import ScriptDebug.Proofs.Machine.Invariant
import ScriptDebug.Proofs.Program.Safety
import ScriptDebug.Proofs.Meaning
import ScriptDebug.Proofs.Program.Correctness
import ScriptDebug.Proofs.Machine.Likeness
import ScriptDebug.Proofs.Fragment.Quiet
import ScriptDebug.Proofs.Debugger.Transparency
import ScriptDebug.Proofs.Debugger.StopPoints
import ScriptDebug.Proofs.Script.Acceptance
import ScriptDebug.Proofs.Script.Order
import ScriptDebug.Proofs.Program.Lines
import ScriptDebug.Proofs.Debugger.NextLine
import ScriptDebug.Proofs.Number.Text
import ScriptDebug.Proofs.Number.Integer
import ScriptDebug.Proofs.Text.Runs
import ScriptDebug.Proofs.Script.Locality
import ScriptDebug.Proofs.Script.Tiling
import ScriptDebug.Proofs.Script.Shift
import ScriptDebug.Proofs.Script.Concatenation
import ScriptDebug.Proofs.Script.Printing
import ScriptDebug.Proofs.Script.Writing
import ScriptDebug.Proofs.Script.Depth
import ScriptDebug.Proofs.Fragment.Meaning
import ScriptDebug.Proofs.Fragment.Evaluation
import ScriptDebug.Proofs.Fragment.Confinement
import ScriptDebug.Proofs.Fragment.Names
import ScriptDebug.Proofs.Debugger.Gates
import ScriptDebug.Proofs.Program.Marks
import ScriptDebug.Proofs.Debugger.FirstStop
import ScriptDebug.Proofs.Debugger.Registry
import ScriptDebug.Proofs.Console.Typing
import ScriptDebug.Proofs.Debugger.History
import ScriptDebug.Proofs.Source.Places
import ScriptDebug.Proofs.Debugger.Window
import ScriptDebug.Proofs.Console.Repetition
import ScriptDebug.Proofs.Lists
import ScriptDebug.Proofs.Session.Wakeup
import ScriptDebug.Proofs.Number.Defined
import ScriptDebug.Proofs.Program.Constants
import ScriptDebug.Proofs.Console.Locations
import ScriptDebug.Proofs.Machine.Reachable
import ScriptDebug.Proofs.Machine.Assignment
import ScriptDebug.Proofs.Script.Held
import ScriptDebug.Proofs.Script.Lockstep
import ScriptDebug.Proofs.Script.Limits
import ScriptDebug.Proofs.Json.Writing
import ScriptDebug.Proofs.Settings.RoundTrip
