/-
# Instructions

The instructions of the stack machine. There is no jump: a program runs from
its first instruction to its last.

Key definitions: `Instruction`, `Instruction.text`.
-/
import ScriptDebug.Script.Tree

namespace ScriptDebug

/-- An instruction. `storeName` assigns the top of the stack and leaves it there, `saveResult` moves
it to the completion value, and `pause` marks a place to stop at. -/
inductive Instruction where
  | loadConst (index : Nat)
  | loadUndefined
  | loadNull
  | loadBool (value : Bool)
  | loadName (name : String)
  | storeName (name : String)
  | defineLet (name : String)
  | defineVar (name : String)
  | loadThis
  | loadGlobalThis
  | neg
  | not
  | binary (op : BinaryOp)
  | pop
  | saveResult
  | enterBlock
  | leaveBlock
  | pause
  | halt
  deriving DecidableEq, Repr

def BinaryOp.text : BinaryOp → String
  | .add => "Add"
  | .sub => "Sub"
  | .mul => "Mul"
  | .div => "Div"
  | .rem => "Rem"
  | .eq => "Eq"
  | .notEq => "NotEq"
  | .lt => "Lt"
  | .le => "Le"
  | .gt => "Gt"
  | .ge => "Ge"

/-- The written form of an instruction: those with an operand part their words by an underscore. -/
def Instruction.text : Instruction → String
  | .loadConst i => s!"LOAD_CONST {i}"
  | .loadUndefined => "LOADUNDEFINED"
  | .loadNull => "LOADNULL"
  | .loadBool b => if b then "LOAD_BOOL true" else "LOAD_BOOL false"
  | .loadName x => s!"LOAD_NAME {x}"
  | .storeName x => s!"STORE_NAME {x}"
  | .defineLet x => s!"DEFINE_LET {x}"
  | .defineVar x => s!"DEFINE_VAR {x}"
  | .loadThis => "LOADTHIS"
  | .loadGlobalThis => "LOADGLOBALTHIS"
  | .neg => "NEG"
  | .not => "NOT"
  | .binary op => "BINARY " ++ op.text
  | .pop => "POP"
  | .saveResult => "SAVERESULT"
  | .enterBlock => "ENTERBLOCK"
  | .leaveBlock => "LEAVEBLOCK"
  | .pause => "DEBUGGER"
  | .halt => "HALT"

end ScriptDebug
