/-
# Programs from trees

The code of an expression leaves its value on the stack; the code of a
statement leaves the stack as it was. Number and string literals are kept once
each among the constants. Statements and closing braces get a mark, which is
written into a table that has one mark for an index at most.

A fragment, which runs inside a paused program, has a scope of its own around
all its statements.

Key definitions: `Mode`, `Expr.code`, `Stmt.piece`, `Mark.write`, `Program.ofTree`,
`Program.ofSource`.
-/
import ScriptDebug.Program
import ScriptDebug.Script.Tree.Statement

namespace ScriptDebug

/-- How a text is compiled: as a fragment or as a script, and whether `this` is known to be the
global object. -/
structure Mode where
  isFragment : Bool
  globalSelf : Bool
  deriving DecidableEq, Repr

/-- The mode of a script. -/
def Mode.script : Mode := ⟨false, true⟩

/-- The index of a constant, which is appended unless an equal one is there. -/
def place (v : Value) (pool : Array Value) : Nat × Array Value :=
  match pool.findIdx? (·.same v) with
  | some i => (i, pool)
  | none => (pool.size, pool.push v)

def UnaryOp.instruction : UnaryOp → Instruction
  | .neg => .neg
  | .not => .not

/-- The code of an expression, and the constants with its own among them. -/
def Expr.code (globalSelf : Bool) : Expr → Array Value → List Instruction × Array Value
  | .number x, pool => let (i, pool) := place (.number x) pool; ([.loadConst i], pool)
  | .string s, pool => let (i, pool) := place (.string s) pool; ([.loadConst i], pool)
  | .bool b, pool => ([.loadBool b], pool)
  | .null, pool => ([.loadNull], pool)
  | .undefined, pool => ([.loadUndefined], pool)
  | .self, pool => ([if globalSelf then .loadGlobalThis else .loadThis], pool)
  | .name x, pool => ([.loadName x], pool)
  | .unary op e, pool =>
    let (code, pool) := e.code globalSelf pool
    (code ++ [op.instruction], pool)
  | .binary op l r, pool =>
    let (left, pool) := l.code globalSelf pool
    let (right, pool) := r.code globalSelf pool
    (left ++ right ++ [.binary op], pool)
  | .assign x e, pool =>
    let (code, pool) := e.code globalSelf pool
    (code ++ [.storeName x], pool)

/-- What becomes of a declaration without an expression is what `undefined` becomes. -/
def initCode (globalSelf : Bool) (init : Option Expr) (pool : Array Value) :
    List Instruction × Array Value :=
  (init.getD .undefined).code globalSelf pool

def Declaration.instruction (x : String) : Declaration → Instruction
  | .lexical => .defineLet x
  | .globalProperty => .defineVar x

/-- The code of statements, the marks in it in the order in which they are written, and the
constants with theirs among them. -/
structure Piece where
  code : List Instruction
  marks : List Mark
  pool : Array Value

mutual

/-- The piece of a statement whose code begins at `pc`. -/
def Stmt.piece (globalSelf : Bool) (pc : Nat) (pool : Array Value) : Stmt → Piece
  | .empty _ => ⟨[], [], pool⟩
  | .pause span => ⟨[.pause], [⟨pc, span.start⟩], pool⟩
  | .declare span how x init =>
    let (code, pool) := initCode globalSelf init pool
    ⟨code ++ [how.instruction x], [⟨pc, span.start⟩], pool⟩
  | .expr span e =>
    let (code, pool) := e.code globalSelf pool
    ⟨code ++ [.saveResult], [⟨pc, span.start⟩], pool⟩
  | .block span body =>
    let inner := bodyPiece globalSelf (pc + 1) pool body
    let leave := pc + 1 + inner.code.length
    ⟨.enterBlock :: (inner.code ++ [.leaveBlock]),
      ⟨pc, span.start⟩ :: (inner.marks ++ [⟨leave, span.stop - 1⟩]), inner.pool⟩

/-- The pieces of statements one after another. -/
def bodyPiece (globalSelf : Bool) (pc : Nat) (pool : Array Value) : List Stmt → Piece
  | [] => ⟨[], [], pool⟩
  | s :: body =>
    let first := s.piece globalSelf pc pool
    let rest := bodyPiece globalSelf (pc + first.code.length) first.pool body
    ⟨first.code ++ rest.code, first.marks ++ rest.marks, rest.pool⟩

end

/-- Writes a mark behind those of a table. If the last of them is at the same index, the new one
takes its place. -/
def Mark.write (marks : Array Mark) (m : Mark) : Array Mark :=
  match marks.back? with
  | some last => if last.pc = m.pc then marks.pop.push m else marks.push m
  | none => marks.push m

namespace Program

/-- The program of statements. -/
def ofTree (source : Source) (mode : Mode) (body : List Stmt) : Program :=
  if mode.isFragment then
    let piece := bodyPiece mode.globalSelf 1 #[] body
    { source
      code := (Instruction.enterBlock :: (piece.code ++ [.leaveBlock, .halt])).toArray
      constants := piece.pool
      marks := (Mark.mk 0 0 :: piece.marks).foldl Mark.write #[] }
  else
    let piece := bodyPiece mode.globalSelf 0 #[] body
    { source
      code := (piece.code ++ [Instruction.halt]).toArray
      constants := piece.pool
      marks := piece.marks.foldl Mark.write #[] }

/-- The program of a text. -/
def ofSource (source : Source) (mode : Mode) : Except SyntaxError Program :=
  (Tree.ofSource source).map (ofTree source mode)

end Program
end ScriptDebug
