/-
# A reader that is held to limits

The reader of trees once more, as a machine would run it, with everything about it
that could get out of hand held to a limit. It goes along a sequence of tokens by an
index, and there has to be a token at each index that it asks for. It counts how deep
it is nested upwards from zero. Its functions call each other, and only so many calls
may be inside one another. What is repeated is a loop, not a call, and each of its
rounds has to take a token, which is also why the loops end. Where a limit is broken
the reader halts, and says so; that is another answer than any misread text gives.

The functions are those of the grammar: a statement, an expression, an assignment,
one for each level of operators and one for the chain of operators that they have in
common, a unary expression and a primary one.

Key definitions: `Tree.Input`, `Tree.Held.Halt`, `Tree.Held.rounds`, `Tree.Held.chain`,
`Tree.Held.statement`, `Tree.Held.program`.
-/
import ScriptDebug.Script.Tree.Statement

namespace ScriptDebug
namespace Tree

/-- The tokens of a text, at whose end, the byte offset `stop`, the end token stands. -/
structure Input where
  tokens : List Token
  stop : Nat

namespace Input

/-- The sequence that is read: the tokens, and then the end token, which is none of them. -/
def sequence (i : Input) : List (Option Token) := i.tokens.map some ++ [none]

def span (i : Input) : Option Token → Span
  | some t => t.span
  | none => ⟨i.stop, i.stop⟩

end Input

namespace Held

/-- Why reading halts: the text is misread, or a limit is broken. -/
inductive Halt where
  | misread (m : Misread)
  | callsExceeded
  | outOfRange
  | idle
  deriving DecidableEq

/-- The index of the next token, and how deep what is read is nested. -/
structure Cursor where
  pos : Nat
  depth : Nat
  deriving DecidableEq

abbrev Reader := StateT Cursor (Except Halt)

def halt {α : Type} (h : Halt) : Reader α := fun _ => .error h

section

variable (i : Input)

/-! ### Tokens -/

/-- The token at the index, which has to be in the sequence. -/
def peek : Reader (Option Token) := fun c =>
  match i.sequence[c.pos]? with
  | some t => .ok (t, c)
  | none => .error .outOfRange

/-- Takes the next token, unless it is the end token. -/
def advance : Reader (Option Token) := do
  let t ← peek i
  if t.isSome then modify fun c => { c with pos := c.pos + 1 }
  return t

def check (p : Lexeme → Bool) : Reader Bool :=
  return (← peek i).any fun t => p t.lexeme

/-- Takes the next token if it is of a kind. -/
def eat (p : Lexeme → Bool) : Reader Bool := do
  if ← check i p then
    let _ ← advance i
    return true
  else return false

/-- Reports a problem at the next token. -/
def refuse {α : Type} (problem : SyntaxProblem) : Reader α := do
  halt (.misread ⟨problem, (i.span (← peek i)).start⟩)

def expect (p : Lexeme → Bool) (problem : SyntaxProblem) : Reader Unit := do
  if ← eat i p then return () else refuse i problem

/-- Goes one deeper. -/
def descend : Reader Unit := do
  modify fun c => { c with depth := c.depth + 1 }
  if maxNesting < (← get).depth then refuse i .nestedTooDeeply

/-- Comes up again. -/
def ascend (n : Nat) : Reader Unit := modify fun c => { c with depth := c.depth - n }

/-- A loop. A round goes on with another value or ends with a result, and one that goes on has to
take a token and to stay within the sequence. -/
def rounds {σ α : Type} (round : σ → Reader (σ ⊕ α)) (s : σ) (c : Cursor) :
    Except Halt (α × Cursor) :=
  match round s c with
  | .error h => .error h
  | .ok (.inr a, c') => .ok (a, c')
  | .ok (.inl s', c') =>
    if c'.pos ≤ c.pos then .error .idle
    else if i.tokens.length < c'.pos then .error .outOfRange
    else rounds round s' c'
termination_by i.tokens.length - c.pos

/-! ### Expressions -/

/-- A round of a chain: an operator of the level and an operand behind it, which nest the chain one
deeper on the left. At its end the chain gives back what its operators took. -/
def chainRound (l : Level) (next : Reader Expr) : Expr × Nat → Reader ((Expr × Nat) ⊕ Expr)
  | (lhs, folds) => do
    match (← peek i).bind fun t => l.op? t.lexeme with
    | some op =>
      let _ ← advance i
      descend i
      let rhs ← next
      return .inl (.binary op lhs rhs, folds + 1)
    | none =>
      ascend folds
      return .inr lhs

mutual

/-- Each function calls others with one call less to come, and none is called where there is none
left. -/
def expression : Nat → Reader Expr
  | 0 => halt .callsExceeded
  | calls + 1 => assignment calls

def assignment : Nat → Reader Expr
  | 0 => halt .callsExceeded
  | calls + 1 => do
    let target ← level calls .equality
    if ← check i (· matches .assign) then
      let sign ← advance i
      descend i
      let value ← assignment calls
      ascend 1
      match target with
      | .name x => return .assign x value
      | _ => halt (.misread ⟨.invalidTarget, (i.span sign).start⟩)
    else return target

/-- The function of a level of operators. -/
def level : Nat → Level → Reader Expr
  | 0, _ => halt .callsExceeded
  | calls + 1, l => chain calls l

/-- What the levels have in common. Their operands are what the function of the next level reads. -/
def chain : Nat → Level → Reader Expr
  | 0, _ => halt .callsExceeded
  | calls + 1, l => do
    let next : Reader Expr := match l with
      | .equality => level calls .comparison
      | .comparison => level calls .additive
      | .additive => level calls .multiplicative
      | .multiplicative => unary calls
    let lhs ← next
    rounds i (chainRound i l next) (lhs, 0)

def unary : Nat → Reader Expr
  | 0 => halt .callsExceeded
  | calls + 1 => do
    descend i
    match (← peek i).bind fun t => unaryOp? t.lexeme with
    | some op =>
      let _ ← advance i
      let e ← unary calls
      ascend 1
      return .unary op e
    | none =>
      let e ← primary calls
      ascend 1
      return e

def primary : Nat → Reader Expr
  | 0 => halt .callsExceeded
  | calls + 1 => do
    match ← peek i with
    | none => refuse i .unexpectedEnd
    | some t =>
      match atom? t.lexeme with
      | some e =>
        let _ ← advance i
        return e
      | none =>
        if t.lexeme matches .parenOpen then
          let _ ← advance i
          let e ← expression calls
          expect i (· matches .parenClose) .expectedParenClose
          return e
        else refuse i .unexpectedToken

end

/-! ### Statements -/

/-- The span of the token that ends a statement. Only a semicolon is taken. -/
def terminator : Reader Span := do
  let last ← peek i
  if ← eat i (· matches .semicolon) then return i.span last
  else if last.all fun t => t.lexeme matches .braceClose then return i.span last
  else refuse i .expectedSemicolon

/-- What a declaration gives its name, if it says. -/
def initialiser (calls : Nat) : Reader (Option Expr) := do
  if ← eat i (· matches .assign) then
    let value ← expression i calls
    return some value
  else return none

/-- A declaration from its keyword on. -/
def declaration (calls : Nat) (how : Declaration) : Reader Stmt := do
  let start := i.span (← advance i)
  match (← advance i).map Token.lexeme with
  | some (.name x) =>
    let init ← initialiser i calls
    let last ← terminator i
    return .declare (start.to last) how x init
  | _ => halt (.misread ⟨.expectedName, start.stop⟩)

/-- A round of statements up to where they are over. -/
def bodyRound (ends : Option Token → Reader Bool) (next : Reader Stmt) (done : List Stmt) :
    Reader (List Stmt ⊕ List Stmt) := do
  if ← ends (← peek i) then return .inr done.reverse
  else return .inl ((← next) :: done)

/-- The statements of a block are over at a closing brace, and the text may not end before it. -/
def blockEnds : Option Token → Reader Bool
  | none => refuse i .expectedBraceClose
  | some t => return t.lexeme matches .braceClose

def statement : Nat → Reader Stmt
  | 0 => halt .callsExceeded
  | calls + 1 => do
    let first ← peek i
    let start := i.span first
    match first.map Token.lexeme with
    | some .semicolon =>
      let _ ← advance i
      return .empty start
    | some .kwDebugger =>
      let _ ← advance i
      let last ← terminator i
      return .pause (start.to last)
    | some .braceOpen =>
      let _ ← advance i
      descend i
      let body ← rounds i (bodyRound i (blockEnds i) (statement calls)) []
      ascend 1
      let close ← advance i
      return .block (start.to (i.span close)) body
    | some .kwLet => declaration i calls .lexical
    | some .kwVar => declaration i calls .globalProperty
    | _ =>
      let value ← expression i calls
      let last ← terminator i
      return .expr (start.to last) value

/-- The statements of a whole text, which are over at the end token. -/
def program : Nat → Reader (List Stmt)
  | 0 => halt .callsExceeded
  | calls + 1 => rounds i (bodyRound i (fun t => return t.isNone) (statement i calls)) []

end

/-- So many calls inside one another are enough where blocks, operators, assignments and parentheses
may be nested `nesting` deep: between one that goes deeper and the next there are eleven others. -/
def callLimit (nesting : Nat) : Nat := 12 * nesting + 13

end Held
end Tree
end ScriptDebug
