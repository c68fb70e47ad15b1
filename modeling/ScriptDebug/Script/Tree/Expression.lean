/-
# Reading expressions from tokens

Expressions are read by descending through the levels of precedence. Nesting is
paid from a budget: the right side of an assignment, a unary level and every
operator already folded in a chain each take one from what is left inside them,
and nothing is read on an empty budget. So no expression is deeper than the
budget, and the budget is also what the recursion descends on.

Key definitions: `Tree.Level`, `Tree.descend`, `Tree.assignment`.
Key theorems: `Tree.assignment_shorter`: an expression takes at least one token.
-/
import ScriptDebug.Script.Token.Scan
import ScriptDebug.Script.Tree

namespace ScriptDebug
namespace Tree

def fail {α : Type} (problem : SyntaxProblem) (offset : Nat) : Except Misread α :=
  .error ⟨problem, offset⟩

/-- The offset of the next token, or `stop` at the end of the text. -/
def here (stop : Nat) : List Token → Nat
  | [] => stop
  | t :: _ => t.span.start

/-- Takes one from the budget. -/
def descend (budget offset : Nat) : Except Misread { b : Nat // b < budget } :=
  match budget with
  | 0 => fail .nestedTooDeeply offset
  | b + 1 => .ok ⟨b, Nat.lt_succ_self b⟩

/-- The levels of binary operators, the loosest first. -/
inductive Level where
  | equality
  | comparison
  | additive
  | multiplicative
  deriving DecidableEq, Repr

/-- The operator of a level that a lexeme writes. -/
def Level.op? : Level → Lexeme → Option BinaryOp
  | .equality, .eqEq => some .eq
  | .equality, .notEq => some .notEq
  | .comparison, .le => some .le
  | .comparison, .ge => some .ge
  | .comparison, .lt => some .lt
  | .comparison, .gt => some .gt
  | .additive, .plus => some .add
  | .additive, .minus => some .sub
  | .multiplicative, .star => some .mul
  | .multiplicative, .slash => some .div
  | .multiplicative, .percent => some .rem
  | _, _ => none

/-- How loosely a level binds. -/
@[simp] def Level.rank : Level → Nat
  | .multiplicative => 1
  | .additive => 2
  | .comparison => 3
  | .equality => 4

/-- The operators of unary expressions. -/
def unaryOp? : Lexeme → Option UnaryOp
  | .minus => some .neg
  | .bang => some .not
  | _ => none

/-- The expressions of one token. -/
def atom? : Lexeme → Option Expr
  | .number x => some (.number x)
  | .string s => some (.string s)
  | .kwTrue => some (.bool true)
  | .kwFalse => some (.bool false)
  | .kwNull => some .null
  | .kwUndefined => some .undefined
  | .kwThis => some .self
  | .name x => some (.name x)
  | _ => none

/-! ### Expressions -/

variable (stop : Nat)

mutual

/-- An expression of any level, and what is assigned to it. -/
def assignment (budget : Nat) (ts : List Token) : Except Misread (Expr × List Token) := do
  let (target, rest) ← chain budget .equality ts
  match rest with
  | ⟨.assign, span⟩ :: rest =>
    let ⟨inner, _⟩ ← descend budget (here stop rest)
    let (value, rest) ← assignment inner rest
    match target with
    | .name x => .ok (.assign x value, rest)
    | _ => fail .invalidTarget span.start
  | _ => .ok (target, rest)
termination_by (budget, 10)

/-- A chain of operands with operators of one level between them. -/
def chain (budget : Nat) (level : Level) (ts : List Token) :
    Except Misread (Expr × List Token) := do
  let (lhs, rest) ← operand budget level ts
  fold budget level lhs rest
termination_by (budget, 2 * level.rank + 1)

/-- The rest of a chain after its operands so far, which `lhs` joins from the left. -/
def fold (budget : Nat) (level : Level) (lhs : Expr) (ts : List Token) :
    Except Misread (Expr × List Token) :=
  match ts with
  | [] => .ok (lhs, [])
  | t :: rest =>
    match level.op? t.lexeme with
    | none => .ok (lhs, t :: rest)
    | some op => do
      let ⟨inner, _⟩ ← descend budget (here stop rest)
      let (rhs, rest) ← operand inner level rest
      fold inner level (.binary op lhs rhs) rest
termination_by (budget, 0)

/-- An operand of a level: a chain of the next tighter level. -/
def operand (budget : Nat) (level : Level) (ts : List Token) : Except Misread (Expr × List Token) :=
  match level with
  | .equality => chain budget .comparison ts
  | .comparison => chain budget .additive ts
  | .additive => chain budget .multiplicative ts
  | .multiplicative => unary budget ts
termination_by (budget, 2 * level.rank)

/-- Unary operators and what they apply to. -/
def unary (budget : Nat) (ts : List Token) : Except Misread (Expr × List Token) := do
  let ⟨inner, _⟩ ← descend budget (here stop ts)
  match ts with
  | [] => fail .unexpectedEnd stop
  | t :: rest =>
    match unaryOp? t.lexeme with
    | some op =>
      let (e, rest) ← unary inner rest
      .ok (.unary op e, rest)
    | none => primary inner t rest
termination_by (budget, 0)

/-- The expression that starts with the token `t` and no operator. -/
def primary (budget : Nat) (t : Token) (ts : List Token) : Except Misread (Expr × List Token) :=
  match atom? t.lexeme with
  | some e => .ok (e, ts)
  | none =>
    match t.lexeme with
    | .parenOpen => do
      let (e, rest) ← assignment budget ts
      match rest with
      | ⟨.parenClose, _⟩ :: rest => .ok (e, rest)
      | _ => fail .expectedParenClose (here stop rest)
    | _ => fail .unexpectedToken t.span.start
termination_by (budget, 11)

end

/-! ### Every expression takes a token -/

theorem bind_eq_ok {ε α β : Type} {x : Except ε α} {f : α → Except ε β} {b : β} :
    (x >>= f) = .ok b ↔ ∃ a, x = .ok a ∧ f a = .ok b := by
  cases x <;> simp [bind, Except.bind]

variable {stop}

mutual

theorem assignment_shorter {budget : Nat} {ts : List Token} {e : Expr} {rest : List Token}
    (h : assignment stop budget ts = .ok (e, rest)) : rest.length < ts.length := by
  rw [assignment] at h
  obtain ⟨⟨target, left⟩, hc, h⟩ := bind_eq_ok.1 h
  have hc := chain_shorter hc
  dsimp only at h
  split at h
  · obtain ⟨⟨inner, hi⟩, _, h⟩ := bind_eq_ok.1 h
    obtain ⟨⟨value, left⟩, hv, h⟩ := bind_eq_ok.1 h
    have hv := assignment_shorter hv
    simp only [List.length_cons] at hc
    grind [fail]
  · grind
termination_by (budget, 10)

theorem chain_shorter {budget : Nat} {level : Level} {ts : List Token} {e : Expr}
    {rest : List Token} (h : chain stop budget level ts = .ok (e, rest)) :
    rest.length < ts.length := by
  rw [chain] at h
  obtain ⟨⟨lhs, left⟩, ho, h⟩ := bind_eq_ok.1 h
  exact Nat.lt_of_le_of_lt (fold_length h) (operand_shorter ho)
termination_by (budget, 2 * level.rank + 1)

theorem fold_length {budget : Nat} {level : Level} {lhs : Expr} {ts : List Token} {e : Expr}
    {rest : List Token} (h : fold stop budget level lhs ts = .ok (e, rest)) :
    rest.length ≤ ts.length := by
  rw [fold.eq_def] at h
  split at h
  · grind
  · split at h
    · grind
    · obtain ⟨⟨inner, hi⟩, _, h⟩ := bind_eq_ok.1 h
      obtain ⟨⟨rhs, left⟩, ho, h⟩ := bind_eq_ok.1 h
      have ho := operand_shorter ho
      have hf := fold_length h
      simp only [List.length_cons]
      omega
termination_by (budget, 0)

theorem operand_shorter {budget : Nat} {level : Level} {ts : List Token} {e : Expr}
    {rest : List Token} (h : operand stop budget level ts = .ok (e, rest)) :
    rest.length < ts.length := by
  rw [operand.eq_def] at h
  split at h
  · exact chain_shorter h
  · exact chain_shorter h
  · exact chain_shorter h
  · exact unary_shorter h
termination_by (budget, 2 * level.rank)

theorem unary_shorter {budget : Nat} {ts : List Token} {e : Expr} {rest : List Token}
    (h : unary stop budget ts = .ok (e, rest)) : rest.length < ts.length := by
  rw [unary] at h
  obtain ⟨⟨inner, hi⟩, _, h⟩ := bind_eq_ok.1 h
  dsimp only at h
  split at h
  · grind [fail]
  · split at h
    · obtain ⟨⟨value, left⟩, hv, h⟩ := bind_eq_ok.1 h
      have hv := unary_shorter hv
      grind
    · have hp := primary_length h
      simp only [List.length_cons]
      omega
termination_by (budget, 0)

theorem primary_length {budget : Nat} {t : Token} {ts : List Token} {e : Expr}
    {rest : List Token} (h : primary stop budget t ts = .ok (e, rest)) :
    rest.length ≤ ts.length := by
  rw [primary] at h
  split at h
  · grind
  · split at h
    · obtain ⟨⟨value, left⟩, hv, h⟩ := bind_eq_ok.1 h
      have hv := assignment_shorter hv
      grind [fail]
    · grind [fail]
termination_by (budget, 11)

end

end Tree
end ScriptDebug
