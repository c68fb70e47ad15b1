/-
# Faults

What can end a program: a name without a binding, an operand that stands for no
value, or code that breaks a rule of the machine, which compiled code never does.

Key definitions: `Breach`, `Fault`, `Fault.message`.
-/

namespace ScriptDebug

/-- A rule of the machine that code broke. -/
inductive Breach where
  | stackUnderflow
  | emptyStack
  | badConstant (index : Nat)
  | leftOutermostScope
  | pastEnd (pc : Nat)
  | noSavedFrame
  deriving DecidableEq, Repr

def Breach.text : Breach → String
  | .stackUnderflow => "stack underflow"
  | .emptyStack => "empty stack"
  | .badConstant i => s!"bad constant index {i}"
  | .leftOutermostScope => "left the outermost scope"
  | .pastEnd pc => s!"pc {pc} out of range"
  | .noSavedFrame => "no saved context"

inductive Fault where
  | unbound (name : String)
  | unresolvedOperand (name : String)
  | broken (breach : Breach)
  deriving DecidableEq, Repr

def Fault.message : Fault → String
  | .unbound x => s!"ReferenceError: {x} is not defined"
  | .unresolvedOperand x => s!"TypeError: cannot operate on unresolved `{x}`"
  | .broken b => "internal error: " ++ b.text

end ScriptDebug
