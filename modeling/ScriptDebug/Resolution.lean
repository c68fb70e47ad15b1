/-
# Resolving a name

How a paused frame sees a name: the scopes come first, then the receiver of the
frame stands in for any name, then the properties of the global object. Where
nothing is found the answer is a value that says so.

Key definitions: `Tier`, `Resolution`, `Machine.resolve`.
-/
import ScriptDebug.Debugger.Error
import ScriptDebug.Machine

namespace ScriptDebug

/-- Where a name was found. -/
inductive Tier where
  | lexical
  | receiver
  | globalProperty
  | unresolved
  deriving DecidableEq, Repr

/-- A value with its tier. The receiver and the unresolved value come with an error. -/
structure Resolution where
  value : Value
  tier : Tier
  error : Option DebugError

/-- The receiver of the frame, if it has one that is not undefined. -/
def Machine.knownReceiver? (m : Machine) : Option Value :=
  m.receiver?.filter fun v => !v.isUndefined

def Machine.resolve (m : Machine) (x : String) : Resolution :=
  match m.scopes.find? m.frame.chain x with
  | some v => ⟨v, .lexical, none⟩
  | none =>
    match m.knownReceiver? with
    | some v => ⟨v, .receiver, some (.receiverFallback x)⟩
    | none =>
      match m.globals.get? x with
      | some v => ⟨v, .globalProperty, none⟩
      | none => ⟨.unresolved x, .unresolved, some (.unresolved x)⟩

end ScriptDebug
