/-
# Printing a tree

An expression is printed in parentheses where it binds more loosely than its place
takes, and nowhere else: the left operand of an operator may be a chain of the
operator's level, the right operand only what binds tighter, and what follows an
unary operator only what no operator takes apart. A statement that is no block ends
with a semicolon.

What is printed is a script of the grammar with the tree that it was printed from
(`Grammar.script_lexemes`), by a derivation whose nesting can be computed from the
tree.

Key definitions: `Expr.lexemes`, `Expr.nesting`, `bodyLexemes`, `bodyNesting`.
Key theorems: `Grammar.printed`, `Grammar.script_lexemes`.
-/
import ScriptDebug.Proofs.Script.Grammar

namespace ScriptDebug

namespace Tree.Level

theorem eq_of_rank_eq {level level' : Level} (h : level.rank = level'.rank) : level = level' := by
  revert h
  cases level <;> cases level' <;> decide

theorem rank_pos (level : Level) : 0 < level.rank := by cases level <;> decide

/-- The tightest level, and the loosest. -/
theorem rank_bounds (level : Level) :
    Level.multiplicative.rank ≤ level.rank ∧ level.rank ≤ Level.equality.rank := by
  cases level <;> decide

end Tree.Level

/-! ### Expressions -/

namespace Expr

/-- How loosely an expression binds: an operator like the level of its chains, an assignment more
loosely than those, and everything else not at all. -/
def looseness : Expr → Nat
  | .binary op _ _ => op.level.rank
  | .assign _ _ => Tree.Level.equality.rank + 1
  | _ => 0

/-- The lexemes `ls` of an expression where nothing may bind more loosely than `most`. -/
def enclose (most : Nat) (e : Expr) (ls : List Lexeme) : List Lexeme :=
  if e.looseness ≤ most then ls else .parenOpen :: (ls ++ [.parenClose])

/-- The lexemes of an expression. -/
def lexemes : Expr → List Lexeme
  | .number x => [.number x]
  | .string s => [.string s]
  | .bool true => [.kwTrue]
  | .bool false => [.kwFalse]
  | .null => [.kwNull]
  | .undefined => [.kwUndefined]
  | .self => [.kwThis]
  | .name x => [.name x]
  | .unary op e => op.sign :: e.enclose 0 e.lexemes
  | .binary op l r => l.enclose op.level.rank l.lexemes ++
      op.sign :: r.enclose (op.level.rank - 1) r.lexemes
  | .assign x e => .name x :: .assign :: e.lexemes

/-- The operators that were folded in a chain of the level. -/
def folds (level : Tree.Level) : Expr → Nat
  | .binary op l _ => if op.level = level then l.folds level + 1 else 0
  | _ => 0

/-- The nesting of an expression that has the nesting `n` outside parentheses. -/
def encloseNesting (most : Nat) (e : Expr) (n : Nat) : Nat :=
  if e.looseness ≤ most then n else n + 1

/-- The nesting of a printed expression. -/
def nesting : Expr → Nat
  | .unary _ e => e.encloseNesting 0 e.nesting + 1
  | .binary op l r => max (l.encloseNesting op.level.rank l.nesting)
      (l.folds op.level + 1 + r.encloseNesting (op.level.rank - 1) r.nesting)
  | .assign _ e => max 1 (e.nesting + 1)
  | _ => 1

theorem folds_eq_zero {e : Expr} {level : Tree.Level} (h : e.looseness ≠ level.rank) :
    e.folds level = 0 := by
  cases e with
  | binary op l r =>
    have hne : op.level ≠ level := fun heq => h (congrArg Tree.Level.rank heq)
    exact if_neg hne
  | _ => rfl

/-- Only what is an operator of a level binds as loosely as one. -/
theorem looseness_cases (e : Expr) : e.looseness = 0 ∨
    (∃ level : Tree.Level, e.looseness = level.rank) ∨ e.looseness = Tree.Level.equality.rank + 1 := by
  cases e with
  | binary op l r => exact Or.inr (Or.inl ⟨op.level, rfl⟩)
  | assign x e => exact Or.inr (Or.inr rfl)
  | _ => exact Or.inl rfl

end Expr

/-! ### Statements -/

mutual

/-- The lexemes of a statement. -/
def Stmt.lexemes : Stmt → List Lexeme
  | .empty _ => [.semicolon]
  | .pause _ => [.kwDebugger, .semicolon]
  | .declare _ how x none => [how.keyword, .name x, .semicolon]
  | .declare _ how x (some e) => how.keyword :: .name x :: .assign :: (e.lexemes ++ [.semicolon])
  | .expr _ e => e.lexemes ++ [.semicolon]
  | .block _ body => .braceOpen :: (bodyLexemes body ++ [.braceClose])

/-- The lexemes of statements one after the other. -/
def bodyLexemes : List Stmt → List Lexeme
  | [] => []
  | s :: body => s.lexemes ++ bodyLexemes body

end

mutual

/-- The nesting of a printed statement. -/
def Stmt.nesting : Stmt → Nat
  | .empty _ | .pause _ | .declare _ _ _ none => 0
  | .declare _ _ _ (some e) | .expr _ e => e.nesting
  | .block _ body => bodyNesting body + 1

def bodyNesting : List Stmt → Nat
  | [] => 0
  | s :: body => max s.nesting (bodyNesting body)

end

namespace Grammar

/-! ### Places -/

variable {n k : Nat} {ls : List Lexeme} {e : Expr}

/-- A chain is an operand of every looser level. -/
theorem Derives.operand_of_chain {tight level : Tree.Level} (h : Derives (.chain tight k) n ls e)
    (hlt : tight.rank < level.rank) : Derives (.operand level) n ls e := by
  cases hnext : level.tighter? with
  | none =>
    have htight := tight.rank_bounds.1
    cases level <;> cases hnext
    omega
  | some next =>
    have hrank := Tree.Level.rank_of_tighter? hnext
    by_cases heq : tight = next
    · subst heq
      exact .inner hnext h
    · have hne : tight.rank ≠ next.rank := mt Tree.Level.eq_of_rank_eq heq
      have hlt' : tight.rank < next.rank := by omega
      exact .inner hnext (.first (h.operand_of_chain hlt'))
termination_by level.rank
decreasing_by omega

/-- A unary expression is an operand of every level. -/
theorem Derives.operand_of_unary (h : Derives .unary n ls e) (level : Tree.Level) :
    Derives (.operand level) n ls e := by
  by_cases hm : level = .multiplicative
  · subst hm
    exact .tightest h
  · have hne := mt Tree.Level.eq_of_rank_eq hm
    have hlt : Tree.Level.multiplicative.rank < level.rank :=
      Nat.lt_of_le_of_ne level.rank_bounds.1 (Ne.symm hne)
    exact (Derives.first (.tightest h)).operand_of_chain hlt

/-- The lexemes of an expression are derived with its tree as whatever it is without parentheses, and
as an assignment. -/
structure Printed (e : Expr) : Prop where
  unary : e.looseness = 0 → Derives .unary e.nesting e.lexemes e
  chain : ∀ level : Tree.Level, e.looseness = level.rank →
    Derives (.chain level (e.folds level)) e.nesting e.lexemes e
  assignment : Derives .assignment e.nesting e.lexemes e

namespace Printed

theorem of_unary (hl : e.looseness = 0) (h : Derives .unary e.nesting e.lexemes e) : Printed e where
  unary _ := h
  chain level hlevel := by
    have := level.rank_pos
    omega
  assignment := .value (.first (h.operand_of_unary .equality))

theorem of_atom {l : Lexeme} (ha : Atom l e) (hl : e.looseness = 0) (hls : e.lexemes = [l])
    (hn : e.nesting = 1) : Printed e := by
  refine of_unary hl ?_
  rw [hls, hn]
  exact .primary (.atom ha)

theorem of_chain {level : Tree.Level} (hl : e.looseness = level.rank)
    (h : Derives (.chain level (e.folds level)) e.nesting e.lexemes e) : Printed e where
  unary hzero := by
    have := level.rank_pos
    omega
  chain level' hlevel := Tree.Level.eq_of_rank_eq (hl.symm.trans hlevel) ▸ h
  assignment := by
    by_cases heq : level = .equality
    · subst heq
      exact .value h
    · have hne := mt Tree.Level.eq_of_rank_eq heq
      have hlt : level.rank < Tree.Level.equality.rank :=
        Nat.lt_of_le_of_ne level.rank_bounds.2 hne
      exact .value (.first (h.operand_of_chain hlt))

variable (h : Printed e)

include h

/-- In parentheses every expression is a unary one. -/
theorem parens : Derives .unary (e.nesting + 1) (.parenOpen :: (e.lexemes ++ [.parenClose])) e :=
  .primary (.parens h.assignment)

/-- What binds tighter than a level is an operand of it. -/
theorem operand {level : Tree.Level} (hlt : e.looseness < level.rank) :
    Derives (.operand level) e.nesting e.lexemes e := by
  rcases e.looseness_cases with hzero | ⟨tight, htight⟩ | hassign
  · exact (h.unary hzero).operand_of_unary level
  · exact (h.chain tight htight).operand_of_chain (htight ▸ hlt)
  · have := level.rank_bounds.2
    omega

theorem enclosed_unary : Derives .unary (e.encloseNesting 0 e.nesting) (e.enclose 0 e.lexemes) e := by
  unfold Expr.encloseNesting Expr.enclose
  by_cases hle : e.looseness ≤ 0
  · rw [if_pos hle, if_pos hle]
    exact h.unary (Nat.le_zero.1 hle)
  · rw [if_neg hle, if_neg hle]
    exact h.parens

theorem enclosed_operand (level : Tree.Level) :
    Derives (.operand level) (e.encloseNesting (level.rank - 1) e.nesting)
      (e.enclose (level.rank - 1) e.lexemes) e := by
  have hpos := level.rank_pos
  unfold Expr.encloseNesting Expr.enclose
  by_cases hle : e.looseness ≤ level.rank - 1
  · rw [if_pos hle, if_pos hle]
    exact h.operand (by omega)
  · rw [if_neg hle, if_neg hle]
    exact h.parens.operand_of_unary level

theorem enclosed_chain (level : Tree.Level) :
    Derives (.chain level (e.folds level)) (e.encloseNesting level.rank e.nesting)
      (e.enclose level.rank e.lexemes) e := by
  unfold Expr.encloseNesting Expr.enclose
  by_cases hle : e.looseness ≤ level.rank
  · rw [if_pos hle, if_pos hle]
    by_cases heq : e.looseness = level.rank
    · exact h.chain level heq
    · rw [Expr.folds_eq_zero heq]
      exact .first (h.operand (by omega))
  · rw [if_neg hle, if_neg hle, Expr.folds_eq_zero (by omega)]
    exact .first (h.parens.operand_of_unary level)

end Printed

/-- **A printed expression is derived** at every place, with the tree that it was printed from. -/
theorem printed (e : Expr) : Printed e := by
  induction e with
  | number x => exact .of_atom (.number x) rfl rfl rfl
  | string s => exact .of_atom (.string s) rfl rfl rfl
  | bool b =>
    cases b with
    | true => exact .of_atom .true rfl rfl rfl
    | false => exact .of_atom .false rfl rfl rfl
  | null => exact .of_atom .null rfl rfl rfl
  | undefined => exact .of_atom .undefined rfl rfl rfl
  | self => exact .of_atom .self rfl rfl rfl
  | name x => exact .of_atom (.name x) rfl rfl rfl
  | unary op e ih => exact .of_unary rfl (.unary ih.enclosed_unary)
  | binary op l r ihl ihr =>
    have hloose : (Expr.binary op l r).looseness = op.level.rank := rfl
    refine .of_chain hloose ?_
    have hfolds : (Expr.binary op l r).folds op.level = l.folds op.level + 1 := if_pos rfl
    rw [hfolds]
    exact .fold (ihl.enclosed_chain op.level) (ihr.enclosed_operand op.level)
  | assign x e ih =>
    have hname : Derives (.chain .equality 0) 1 [.name x] (.name x) :=
      .first ((Derives.primary (.atom (.name x))).operand_of_unary .equality)
    refine ⟨nofun, fun level hlevel => ?_, .assign hname ih.assignment⟩
    have hle := level.rank_bounds.2
    have hloose : (Expr.assign x e).looseness = Tree.Level.equality.rank + 1 := rfl
    omega

/-! ### Statements -/

mutual

theorem statement_lexemes (next : Option Lexeme) :
    (s : Stmt) → Statement s.nesting s.lexemes next s
  | .empty _ => .empty
  | .pause _ => .pause .semicolon
  | .declare _ _ _ none => .declare .semicolon
  | .declare _ _ _ (some e) => .initialise (printed e).assignment .semicolon
  | .expr _ e => .expr (printed e).assignment .semicolon
  | .block _ body => .block (statements_lexemes (some .braceClose) body)

theorem statements_lexemes (next : Option Lexeme) :
    (body : List Stmt) → Statements (bodyNesting body) (bodyLexemes body) next body
  | [] => .nil
  | s :: body => .cons (statement_lexemes _ s) (statements_lexemes next body)

end

/-- **What is printed is a script of the grammar**, with the tree that it was printed from. -/
theorem script_lexemes (body : List Stmt) : Script (bodyNesting body) (bodyLexemes body) body :=
  statements_lexemes none body

end Grammar
end ScriptDebug
