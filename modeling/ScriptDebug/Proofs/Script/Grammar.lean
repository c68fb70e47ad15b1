/-
# The grammar of scripts

    script     = statements
    statement  = ;  |  debugger T  |  { statements }
               | (let | var) name (= assignment)? T  |  assignment T
    assignment = equality (= assignment)?
    equality, comparison, additive, multiplicative = chains over the next tighter level
    unary      = (- | !) unary  |  primary
    primary    = literal  |  this  |  name  |  ( assignment )

`T` is a semicolon, or nothing where a closing brace or the end of the text comes
next. What is assigned to is an expression that denotes a bare name. Operators of
a chain associate to the left.

A derivation counts its nesting along the way: one for each block around a place,
for the right side of each assignment it is in, for each unary level that was
entered, and for each operator that was folded before it in a chain that is not
at its end. The number of a derivation is the largest count in it.

The trees of a derivation may have any spans. Trees that differ in spans only have
the same `bare` tree.

Key definitions: `BinaryOp.sign`, `BinaryOp.level`, `Grammar.Derives`,
`Grammar.Statement`, `Grammar.Statements`, `Grammar.Script`, `Stmt.bare`.
-/
import Mathlib
import ScriptDebug.Script.Tree.Statement

namespace ScriptDebug

/-! ### How operators and keywords are written -/

def UnaryOp.sign : UnaryOp → Lexeme
  | .neg => .minus
  | .not => .bang

def BinaryOp.sign : BinaryOp → Lexeme
  | .add => .plus
  | .sub => .minus
  | .mul => .star
  | .div => .slash
  | .rem => .percent
  | .eq => .eqEq
  | .notEq => .notEq
  | .lt => .lt
  | .le => .le
  | .gt => .gt
  | .ge => .ge

/-- The level of the chains in which an operator stands. -/
def BinaryOp.level : BinaryOp → Tree.Level
  | .eq | .notEq => .equality
  | .lt | .le | .gt | .ge => .comparison
  | .add | .sub => .additive
  | .mul | .div | .rem => .multiplicative

def Declaration.keyword : Declaration → Lexeme
  | .lexical => .kwLet
  | .globalProperty => .kwVar

/-- The level of the operands of a chain. Those of the tightest one are unary expressions. -/
def Tree.Level.tighter? : Tree.Level → Option Tree.Level
  | .equality => some .comparison
  | .comparison => some .additive
  | .additive => some .multiplicative
  | .multiplicative => none

theorem Tree.Level.rank_of_tighter? {level tight : Tree.Level} (h : level.tighter? = some tight) :
    tight.rank + 1 = level.rank := by
  cases level <;> cases h <;> rfl

/-- The table of operators of a level says how its operators are written. -/
theorem Tree.Level.op?_eq_some_iff {level : Tree.Level} {l : Lexeme} {op : BinaryOp} :
    level.op? l = some op ↔ op.level = level ∧ l = op.sign := by
  constructor
  · intro h
    unfold Tree.Level.op? at h
    split at h <;> cases h <;> exact ⟨rfl, rfl⟩
  · rintro ⟨rfl, rfl⟩
    cases op <;> rfl

theorem Tree.unaryOp?_eq_some_iff {l : Lexeme} {op : UnaryOp} :
    Tree.unaryOp? l = some op ↔ l = op.sign := by
  constructor
  · intro h
    unfold Tree.unaryOp? at h
    split at h <;> cases h <;> rfl
  · rintro rfl
    cases op <;> rfl

namespace Grammar

/-! ### Expressions -/

/-- The lexemes that are expressions by themselves. -/
inductive Atom : Lexeme → Expr → Prop
  | number (x : Float) : Atom (.number x) (.number x)
  | string (s : String) : Atom (.string s) (.string s)
  | true : Atom .kwTrue (.bool true)
  | false : Atom .kwFalse (.bool false)
  | null : Atom .kwNull .null
  | undefined : Atom .kwUndefined .undefined
  | self : Atom .kwThis .self
  | name (x : String) : Atom (.name x) (.name x)

theorem atom?_eq_some_iff {l : Lexeme} {e : Expr} : Tree.atom? l = some e ↔ Atom l e := by
  constructor
  · intro h
    unfold Tree.atom? at h
    split at h <;> cases h <;> constructor
  · intro h
    cases h <;> rfl

/-- The forms of expressions. A chain is known by its level and by how many operators it has. -/
inductive Form where
  | assignment
  | chain (level : Tree.Level) (folded : Nat)
  | operand (level : Tree.Level)
  | unary
  | primary

/-- `Derives f n ls e`: the lexemes `ls` are an expression of the form `f` with the tree `e`, by a
derivation of nesting `n`. -/
inductive Derives : Form → Nat → List Lexeme → Expr → Prop
  | value {k n ls e} : Derives (.chain .equality k) n ls e → Derives .assignment n ls e
  | assign {k n m ls us x e} : Derives (.chain .equality k) n ls (.name x) →
    Derives .assignment m us e →
    Derives .assignment (max n (m + 1)) (ls ++ .assign :: us) (.assign x e)
  | first {level n ls e} : Derives (.operand level) n ls e → Derives (.chain level 0) n ls e
  | fold {op : BinaryOp} {k n m ls us lhs rhs} : Derives (.chain op.level k) n ls lhs →
    Derives (.operand op.level) m us rhs →
    Derives (.chain op.level (k + 1)) (max n (k + 1 + m)) (ls ++ op.sign :: us) (.binary op lhs rhs)
  | inner {level tight : Tree.Level} {k n ls e} : level.tighter? = some tight →
    Derives (.chain tight k) n ls e → Derives (.operand level) n ls e
  | tightest {n ls e} : Derives .unary n ls e → Derives (.operand .multiplicative) n ls e
  | unary {op : UnaryOp} {n ls e} : Derives .unary n ls e →
    Derives .unary (n + 1) (op.sign :: ls) (.unary op e)
  | primary {n ls e} : Derives .primary n ls e → Derives .unary (n + 1) ls e
  | atom {l e} : Atom l e → Derives .primary 0 [l] e
  | parens {n ls e} : Derives .assignment n ls e →
    Derives .primary n (.parenOpen :: (ls ++ [.parenClose])) e

/-! ### Statements -/

/-- The end of a statement, before the lexeme `next` or at the end of the text. -/
inductive Terminator : List Lexeme → Option Lexeme → Prop
  | semicolon {next} : Terminator [.semicolon] next
  | beforeBrace : Terminator [] (some .braceClose)
  | atEnd : Terminator [] none

mutual

/-- `Statement n ls next s`: the lexemes `ls` are a statement with the tree `s` where `next` comes
after them, by a derivation of nesting `n`. -/
inductive Statement : Nat → List Lexeme → Option Lexeme → Stmt → Prop
  | empty {next span} : Statement 0 [.semicolon] next (.empty span)
  | pause {us next span} : Terminator us next → Statement 0 (.kwDebugger :: us) next (.pause span)
  | block {n ls next span body} : Statements n ls (some .braceClose) body →
    Statement (n + 1) (.braceOpen :: (ls ++ [.braceClose])) next (.block span body)
  | declare {how : Declaration} {x us next span} : Terminator us next →
    Statement 0 (how.keyword :: .name x :: us) next (.declare span how x none)
  | initialise {how : Declaration} {x n ls us next span e} : Derives .assignment n ls e →
    Terminator us next →
    Statement n (how.keyword :: .name x :: .assign :: (ls ++ us)) next
      (.declare span how x (some e))
  | expr {n ls us next span e} : Derives .assignment n ls e → Terminator us next →
    Statement n (ls ++ us) next (.expr span e)

/-- `Statements n ls next body`: no or some statements one after the other, before `next`. -/
inductive Statements : Nat → List Lexeme → Option Lexeme → List Stmt → Prop
  | nil {next} : Statements 0 [] next []
  | cons {n m ls us next s body} : Statement n ls (us.head?.or next) s →
    Statements m us next body → Statements (max n m) (ls ++ us) next (s :: body)

end

/-- The lexemes are a whole script with the tree `body`, by a derivation of nesting `n`. -/
def Script (n : Nat) (ls : List Lexeme) (body : List Stmt) : Prop := Statements n ls none body

end Grammar

/-! ### Trees up to spans -/

mutual

/-- The tree with every span replaced by an empty one. -/
def Stmt.bare : Stmt → Stmt
  | .empty _ => .empty ⟨0, 0⟩
  | .pause _ => .pause ⟨0, 0⟩
  | .declare _ how x init => .declare ⟨0, 0⟩ how x init
  | .expr _ e => .expr ⟨0, 0⟩ e
  | .block _ body => .block ⟨0, 0⟩ (bareBody body)

def bareBody : List Stmt → List Stmt
  | [] => []
  | s :: body => s.bare :: bareBody body

end

end ScriptDebug
