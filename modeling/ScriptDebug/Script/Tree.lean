/-
# Script trees

A script is a list of statements. Each statement has the span of source that it
was read from; expressions have none, since positions are kept per statement.

Key definitions: `Expr`, `Stmt`, `Stmt.span`.
-/
import ScriptDebug.Script.Token

namespace ScriptDebug

inductive UnaryOp where
  | neg
  | not
  deriving DecidableEq, Repr

inductive BinaryOp where
  | add
  | sub
  | mul
  | div
  | rem
  | eq
  | notEq
  | lt
  | le
  | gt
  | ge
  deriving DecidableEq, Repr

/-- An expression. `self` is what the language writes `this`. -/
inductive Expr where
  | number (value : Float)
  | string (value : String)
  | bool (value : Bool)
  | null
  | undefined
  | self
  | name (text : String)
  | unary (op : UnaryOp) (operand : Expr)
  | binary (op : BinaryOp) (lhs rhs : Expr)
  | assign (target : String) (value : Expr)
  deriving Repr

/-- Where a declaration puts its name: `let` binds it in the scope around it, `var` makes it a
property of the global object. -/
inductive Declaration where
  | lexical
  | globalProperty
  deriving DecidableEq, Repr

inductive Stmt where
  | empty (span : Span)
  | pause (span : Span)
  | declare (span : Span) (how : Declaration) (name : String) (init : Option Expr)
  | expr (span : Span) (value : Expr)
  | block (span : Span) (body : List Stmt)
  deriving Repr

def Stmt.span : Stmt → Span
  | .empty s | .pause s | .declare s _ _ _ | .expr s _ | .block s _ => s

end ScriptDebug
