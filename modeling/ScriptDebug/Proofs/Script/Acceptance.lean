/-
# The reader accepts exactly the grammar

What is read from tokens is derived by the grammar, and the derivation is not
nested deeper than the budget (`assignment_derived`, `statements_derived`). The
other way round, the reader finds every tree that the grammar derives within its
budget (`reads_of_derives`, `Statements.found`): while it is in a chain that had
`k` operators so far, it is in its loop with `k` less in the budget and the tree of
these operators on the left.

So a sequence of tokens is read if and only if it has a derivation within the
limit of nesting, and the tree is that of the derivation (`accepts_iff_derivable`).

Key definitions: `Grammar.Derived`, `Grammar.Loose`, `Grammar.Reads`.
Key theorems: `Grammar.assignment_derived`, `Grammar.reads_of_derives`,
`Grammar.statements_derived`, `Grammar.Statements.found`, `Grammar.ofSource_of_derives`,
`accepts_iff_derivable`.
-/
import ScriptDebug.Proofs.Script.Grammar

namespace ScriptDebug
namespace Grammar

open ScriptDebug.Tree

variable {stop : Nat}

/-! ### What is read is derived -/

/-- A part `used` of the tokens was read as an expression of the form `f`, within the budget. -/
def Derived (f : Form) (budget : Nat) (ts : List Token) (e : Expr) (rest : List Token) : Prop :=
  ∃ used n, ts = used ++ rest ∧ n ≤ budget ∧ Derives f n (used.map Token.lexeme) e

theorem descend_eq_ok {budget offset : Nat} {inner : { b : Nat // b < budget }}
    (h : descend budget offset = .ok inner) : inner.1 + 1 = budget := by
  cases budget with
  | zero => simp [descend, fail] at h
  | succ b =>
    cases h
    rfl

mutual

theorem assignment_derived {budget : Nat} {ts : List Token} {e : Expr} {rest : List Token}
    (h : assignment stop budget ts = .ok (e, rest)) : Derived .assignment budget ts e rest := by
  rw [assignment] at h
  obtain ⟨⟨target, left⟩, hc, h⟩ := bind_eq_ok.1 h
  obtain ⟨k, used, n, hts, hn, ht⟩ := chain_derived hc
  dsimp only at h
  split at h
  · rename_i span after
    obtain ⟨⟨inner, hi⟩, hd, h⟩ := bind_eq_ok.1 h
    obtain ⟨⟨value, left⟩, hv, h⟩ := bind_eq_ok.1 h
    obtain ⟨used', m, hafter, hm, hval⟩ := assignment_derived hv
    have hm : m ≤ inner := hm
    have hinner : inner + 1 = budget := descend_eq_ok hd
    cases target with
    | name x =>
      cases h
      refine ⟨used ++ ⟨.assign, span⟩ :: used', max n (m + 1), by simp [hts, hafter], by omega, ?_⟩
      rw [List.map_append, List.map_cons]
      exact .assign ht hval
    | _ => simp [fail] at h
  · cases h
    exact ⟨used, n, hts, hn, .value ht⟩
termination_by (budget, 10)

theorem chain_derived {budget : Nat} {level : Level} {ts : List Token} {e : Expr}
    {rest : List Token} (h : chain stop budget level ts = .ok (e, rest)) :
    ∃ k, Derived (.chain level k) budget ts e rest := by
  rw [chain] at h
  obtain ⟨⟨lhs, left⟩, ho, h⟩ := bind_eq_ok.1 h
  obtain ⟨used, n, hts, hn, ho⟩ := operand_derived ho
  obtain ⟨k, used', m, hleft, hm, hf⟩ := fold_derived h (.first ho) hn
  refine ⟨k, used ++ used', m, by rw [hts, hleft, List.append_assoc], hm, ?_⟩
  rw [List.map_append]
  exact hf
termination_by (budget, 2 * level.rank + 1)

/-- The loop of a chain puts what it reads behind a chain that it has read already. What that took
from the budget counts for both. -/
theorem fold_derived {budget : Nat} {level : Level} {lhs : Expr} {ts : List Token} {e : Expr}
    {rest : List Token} (h : fold stop budget level lhs ts = .ok (e, rest)) {k n : Nat}
    {ls : List Lexeme} (hlhs : Derives (.chain level k) n ls lhs) (hn : n ≤ budget + k) :
    ∃ k' used m, ts = used ++ rest ∧ m ≤ budget + k ∧
      Derives (.chain level k') m (ls ++ used.map Token.lexeme) e := by
  rw [fold.eq_def] at h
  split at h
  · cases h
    refine ⟨k, [], n, rfl, hn, ?_⟩
    rw [List.map_nil, List.append_nil]
    exact hlhs
  · rename_i t after
    split at h
    · cases h
      refine ⟨k, [], n, rfl, hn, ?_⟩
      rw [List.map_nil, List.append_nil]
      exact hlhs
    · rename_i op hop
      obtain ⟨rfl, hsign⟩ := Level.op?_eq_some_iff.1 hop
      obtain ⟨⟨inner, hi⟩, hd, h⟩ := bind_eq_ok.1 h
      obtain ⟨⟨rhs, left⟩, ho, h⟩ := bind_eq_ok.1 h
      obtain ⟨used, m, hafter, hm, ho⟩ := operand_derived ho
      have hinner : inner + 1 = budget := descend_eq_ok hd
      have hmax : max n (k + 1 + m) ≤ inner + (k + 1) := by omega
      obtain ⟨k', used', m', hleft, hm', hf⟩ := fold_derived h (.fold hlhs ho) hmax
      refine ⟨k', t :: (used ++ used'), m', by simp [hafter, hleft], by omega, ?_⟩
      rw [List.map_cons, List.map_append, hsign]
      rw [List.append_assoc, List.cons_append] at hf
      exact hf
termination_by (budget, 0)

theorem operand_derived {budget : Nat} {level : Level} {ts : List Token} {e : Expr}
    {rest : List Token} (h : operand stop budget level ts = .ok (e, rest)) :
    Derived (.operand level) budget ts e rest := by
  rw [operand.eq_def] at h
  split at h
  · obtain ⟨k, used, n, hts, hn, hc⟩ := chain_derived h
    exact ⟨used, n, hts, hn, .inner rfl hc⟩
  · obtain ⟨k, used, n, hts, hn, hc⟩ := chain_derived h
    exact ⟨used, n, hts, hn, .inner rfl hc⟩
  · obtain ⟨k, used, n, hts, hn, hc⟩ := chain_derived h
    exact ⟨used, n, hts, hn, .inner rfl hc⟩
  · obtain ⟨used, n, hts, hn, hu⟩ := unary_derived h
    exact ⟨used, n, hts, hn, .tightest hu⟩
termination_by (budget, 2 * level.rank)

theorem unary_derived {budget : Nat} {ts : List Token} {e : Expr} {rest : List Token}
    (h : unary stop budget ts = .ok (e, rest)) : Derived .unary budget ts e rest := by
  rw [unary] at h
  obtain ⟨⟨inner, hi⟩, hd, h⟩ := bind_eq_ok.1 h
  have hinner : inner + 1 = budget := descend_eq_ok hd
  dsimp only at h
  split at h
  · simp [fail] at h
  · rename_i t after _
    split at h
    · rename_i op hop
      obtain ⟨⟨value, left⟩, hv, h⟩ := bind_eq_ok.1 h
      obtain ⟨used, n, hafter, hn, hv⟩ := unary_derived hv
      cases h
      refine ⟨t :: used, n + 1, by rw [hafter, List.cons_append], by omega, ?_⟩
      rw [List.map_cons, unaryOp?_eq_some_iff.1 hop]
      exact .unary hv
    · obtain ⟨used, n, hts, hn, hp⟩ := primary_derived h
      exact ⟨used, n + 1, hts, by omega, .primary hp⟩
termination_by (budget, 0)

theorem primary_derived {budget : Nat} {t : Token} {ts : List Token} {e : Expr}
    {rest : List Token} (h : primary stop budget t ts = .ok (e, rest)) :
    Derived .primary budget (t :: ts) e rest := by
  rw [primary] at h
  split at h
  · rename_i ha
    cases h
    exact ⟨[t], 0, rfl, Nat.zero_le _, .atom (atom?_eq_some_iff.1 ha)⟩
  · split at h
    · rename_i hopen
      obtain ⟨⟨value, left⟩, hv, h⟩ := bind_eq_ok.1 h
      obtain ⟨used, n, hts, hn, hval⟩ := assignment_derived hv
      dsimp only at h
      split at h
      · rename_i span after
        cases h
        refine ⟨t :: (used ++ [⟨.parenClose, span⟩]), n, by simp [hts], hn, ?_⟩
        rw [List.map_cons, List.map_append, hopen]
        exact .parens hval
      · simp [fail] at h
    · simp [fail] at h
termination_by (budget, 11)

end

theorem terminator_derived {ts rest : List Token} {span : Span}
    (h : terminator stop ts = .ok (span, rest)) :
    ∃ used, ts = used ++ rest ∧
      Terminator (used.map Token.lexeme) (rest.head?.map Token.lexeme) := by
  unfold terminator at h
  split at h
  · cases h
    exact ⟨[], rfl, .atEnd⟩
  · rename_i t after
    split at h
    · rename_i hl
      cases h
      refine ⟨[t], rfl, ?_⟩
      rw [List.map_singleton, hl]
      exact .semicolon
    · rename_i hl
      cases h
      refine ⟨[], rfl, ?_⟩
      rw [List.head?_cons, Option.map_some, hl]
      exact .beforeBrace
    · simp [fail] at h

/-- A part `used` of the tokens was read as a statement, within the budget. -/
def StatementDerived (budget : Nat) (ts : List Token) (s : Stmt) (rest : List Token) : Prop :=
  ∃ used n, ts = used ++ rest ∧ n ≤ budget ∧
    Statement n (used.map Token.lexeme) (rest.head?.map Token.lexeme) s

theorem declaration_derived {budget : Nat} {how : Declaration} {t : Token}
    {ts rest : List Token} {s : Stmt} (ht : t.lexeme = how.keyword)
    (h : declaration stop budget how t.span ts = .ok (s, rest)) :
    StatementDerived budget (t :: ts) s rest := by
  unfold declaration at h
  split at h
  · rename_i x span after
    obtain ⟨⟨init, left⟩, hi, h₁⟩ := bind_eq_ok.1 h
    obtain ⟨⟨last, left'⟩, hl, h₂⟩ := bind_eq_ok.1 h₁
    obtain ⟨used', hleft, hend⟩ := terminator_derived hl
    cases h₂
    unfold initialiser at hi
    split at hi
    · rename_i sign after
      obtain ⟨⟨value, left''⟩, hv, hi⟩ := bind_eq_ok.1 hi
      obtain ⟨used, n, hts, hn, hval⟩ := assignment_derived hv
      cases hi
      refine ⟨t :: ⟨.name x, span⟩ :: ⟨.assign, sign⟩ :: (used ++ used'), n, by simp [hts, hleft],
        hn, ?_⟩
      rw [List.map_cons, List.map_cons, List.map_cons, List.map_append, ht]
      exact .initialise hval hend
    · cases hi
      refine ⟨t :: ⟨.name x, span⟩ :: used', 0, by simp [hleft], Nat.zero_le _, ?_⟩
      rw [List.map_cons, List.map_cons, ht]
      exact .declare hend
  · simp [fail] at h

theorem simple_derived {budget : Nat} {t : Token} {ts rest : List Token} {s : Stmt}
    (h : simple stop budget t ts = .ok (s, rest)) : StatementDerived budget (t :: ts) s rest := by
  unfold simple at h
  split at h
  · rename_i ht
    obtain ⟨⟨last, left⟩, hl, h⟩ := bind_eq_ok.1 h
    obtain ⟨used, hts, hl⟩ := terminator_derived hl
    cases h
    refine ⟨t :: used, 0, by rw [hts, List.cons_append], Nat.zero_le _, ?_⟩
    rw [List.map_cons, ht]
    exact .pause hl
  · rename_i ht
    have ht : t.lexeme = Declaration.lexical.keyword := ht
    exact declaration_derived ht h
  · rename_i ht
    have ht : t.lexeme = Declaration.globalProperty.keyword := ht
    exact declaration_derived ht h
  · obtain ⟨⟨value, left⟩, hv, h⟩ := bind_eq_ok.1 h
    obtain ⟨⟨last, left'⟩, hl, h⟩ := bind_eq_ok.1 h
    obtain ⟨used, n, hts, hn, hv⟩ := assignment_derived hv
    obtain ⟨used', hleft, hl⟩ := terminator_derived hl
    cases h
    refine ⟨used ++ used', n, by rw [hts, hleft, List.append_assoc], hn, ?_⟩
    rw [List.map_append]
    exact .expr hv hl

/-- The first lexeme of two parts is that of the first part, or of the second if the first is
empty. -/
theorem head?_lexeme_append (used rest : List Token) :
    (used ++ rest).head?.map Token.lexeme =
      (used.map Token.lexeme).head?.or (rest.head?.map Token.lexeme) := by
  cases used <;> rfl

mutual

theorem statement_derived {budget : Nat} {t : Token} {ts : List Token} {s : Stmt}
    {rest : NotLonger ts} (h : statement stop budget t ts = .ok (s, rest)) :
    StatementDerived budget (t :: ts) s rest.1 := by
  rw [statement.eq_def] at h
  split at h
  · rename_i ht
    cases h
    refine ⟨[t], 0, rfl, Nat.zero_le _, ?_⟩
    rw [List.map_singleton, ht]
    exact .empty
  · rename_i ht
    obtain ⟨⟨inner, hi⟩, hd, h⟩ := bind_eq_ok.1 h
    obtain ⟨⟨body, left, hl⟩, hb, h⟩ := bind_eq_ok.1 h
    obtain ⟨⟨used, n, hts, hn, hb⟩, hend⟩ := statements_derived hb
    have hinner : inner + 1 = budget := descend_eq_ok hd
    dsimp only at h
    split at h
    · simp [fail] at h
    · rename_i close after _ _
      cases h
      have hts : ts = used ++ close :: after := hts
      have hclose : close.lexeme = .braceClose := hend close rfl
      refine ⟨t :: (used ++ [close]), n + 1, by simp [← hts], by omega, ?_⟩
      · rw [List.head?_cons, Option.map_some, hclose] at hb
        rw [List.map_cons, List.map_append, List.map_singleton, ht, hclose]
        exact .block hb
  · unfold bounded at h
    split at h
    · rename_i hs _
      cases h
      exact simple_derived hs
    · cases h
termination_by 2 * ts.length + 1

/-- Statements are read up to a closing brace or the end. -/
theorem statements_derived {budget : Nat} {ts : List Token} {body : List Stmt}
    {rest : NotLonger ts} (h : statements stop budget ts = .ok (body, rest)) :
    (∃ used n, ts = used ++ rest.1 ∧ n ≤ budget ∧
      Statements n (used.map Token.lexeme) (rest.1.head?.map Token.lexeme) body) ∧
      ∀ t ∈ rest.1.head?, t.lexeme = .braceClose := by
  rw [statements.eq_def] at h
  cases ts with
  | nil =>
    cases h
    exact ⟨⟨[], 0, rfl, Nat.zero_le _, .nil⟩, nofun⟩
  | cons t tail =>
    dsimp only at h
    split at h
    · rename_i ht
      cases h
      refine ⟨⟨[], 0, rfl, Nat.zero_le _, .nil⟩, fun t' ht' => ?_⟩
      cases ht'
      exact ht
    · obtain ⟨⟨s, left, hl⟩, hs, h⟩ := bind_eq_ok.1 h
      obtain ⟨⟨more, after, ha⟩, hm, h⟩ := bind_eq_ok.1 h
      obtain ⟨used, n, hts, hn, hs⟩ := statement_derived hs
      obtain ⟨⟨used', m, hleft, hm, hmore⟩, hend⟩ := statements_derived hm
      cases h
      have hts : t :: tail = used ++ left := hts
      have hleft : left = used' ++ after := hleft
      refine ⟨⟨used ++ used', max n m, ?_, by omega, ?_⟩, hend⟩
      · show t :: tail = used ++ used' ++ after
        rw [hts, hleft, List.append_assoc]
      · have hs : Statement n (used.map Token.lexeme) (left.head?.map Token.lexeme) s := hs
        rw [hleft, head?_lexeme_append] at hs
        rw [List.map_append]
        exact .cons hs hmore
termination_by 2 * ts.length
decreasing_by
  all_goals
    subst_vars
    simp only [List.length_cons]
    omega

end

/-! ### What is derived is read -/

/-- The next token is no operator of a level that is tighter than the rank. -/
def Loose (rank : Nat) (rest : List Token) : Prop :=
  ∀ t ∈ rest.head?, ∀ op : BinaryOp, t.lexeme = op.sign → rank ≤ op.level.rank

/-- The next token, if there is one, is among those that come after a whole expression. -/
def Ended (rest : List Token) : Prop :=
  ∀ t ∈ rest.head?, t.lexeme = .semicolon ∨ t.lexeme = .braceClose ∨ t.lexeme = .parenClose

theorem Ended.loose {rest : List Token} (h : Ended rest) (rank : Nat) : Loose rank rest := by
  intro t ht op hop
  have hend := h t ht
  rw [hop] at hend
  cases op <;> simp [BinaryOp.sign] at hend

theorem Loose.mono {a b : Nat} {rest : List Token} (h : Loose b rest) (hab : a ≤ b) :
    Loose a rest :=
  fun t ht op hop => Nat.le_trans hab (h t ht op hop)

theorem loose_sign {t : Token} {op : BinaryOp} (ht : t.lexeme = op.sign) (rest : List Token) :
    Loose op.level.rank (t :: rest) := by
  intro t' ht' op' hop'
  cases ht'
  have hsign : op.sign = op'.sign := ht.symm.trans hop'
  obtain rfl : op = op' := by
    cases op <;> cases op' <;> simp [BinaryOp.sign] at hsign <;> rfl
  exact Nat.le_refl _

theorem loose_assign {t : Token} (ht : t.lexeme = .assign) (rank : Nat) (rest : List Token) :
    Loose rank (t :: rest) := by
  intro t' ht' op hop
  cases ht'
  rw [ht] at hop
  cases op <;> simp [BinaryOp.sign] at hop

/-- A chain ends before what is no operator of its level. -/
theorem fold_of_loose {level : Level} {rest : List Token} (h : Loose (level.rank + 1) rest)
    (budget : Nat) (e : Expr) : fold stop budget level e rest = .ok (e, rest) := by
  rw [fold.eq_def]
  cases rest with
  | nil => rfl
  | cons t rest =>
    cases hop : level.op? t.lexeme with
    | none => simp only [hop]
    | some op =>
      obtain ⟨rfl, hsign⟩ := Level.op?_eq_some_iff.1 hop
      have := h t rfl op hsign
      omega

/-- What the reader makes of the lexemes `ls` of a derivation of nesting `n`, when its budget is not
smaller. A chain is still open after them: its loop goes on behind them, with what they took from the
budget gone. -/
def Reads (stop : Nat) : Form → Nat → List Lexeme → Expr → Prop
  | .assignment, n, ls, e => ∀ (budget : Nat) (used rest : List Token), n ≤ budget →
    used.map Token.lexeme = ls → Ended rest →
    assignment stop budget (used ++ rest) = .ok (e, rest)
  | .chain level k, n, ls, e => ∀ (budget : Nat) (used rest : List Token), n ≤ budget →
    used.map Token.lexeme = ls → Loose level.rank rest →
    chain stop budget level (used ++ rest) = fold stop (budget - k) level e rest
  | .operand level, n, ls, e => ∀ (budget : Nat) (used rest : List Token), n ≤ budget →
    used.map Token.lexeme = ls → Loose level.rank rest →
    operand stop budget level (used ++ rest) = .ok (e, rest)
  | .unary, n, ls, e => ∀ (budget : Nat) (used rest : List Token), n ≤ budget →
    used.map Token.lexeme = ls → unary stop budget (used ++ rest) = .ok (e, rest)
  | .primary, n, ls, e => ∀ (budget : Nat) (t : Token) (used rest : List Token), n ≤ budget →
    (t :: used).map Token.lexeme = ls → primary stop budget t (used ++ rest) = .ok (e, rest)

/-- A primary expression starts with an atom or a parenthesis. -/
theorem exists_cons_of_primary {n : Nat} {ls : List Lexeme} {e : Expr}
    (h : Derives .primary n ls e) :
    ∃ l us, ls = l :: us ∧ unaryOp? l = none ∧ (Atom l e ∨ l = .parenOpen) := by
  cases h with
  | atom ha => exact ⟨_, [], rfl, by cases ha <;> rfl, Or.inl ha⟩
  | parens h => exact ⟨_, _, rfl, rfl, Or.inr rfl⟩

/-- **Every expression that is derived is read.** -/
theorem reads_of_derives (stop : Nat) {f : Form} {n : Nat} {ls : List Lexeme} {e : Expr}
    (h : Derives f n ls e) : Reads stop f n ls e := by
  induction h with
  | @value k n ls e _ ih =>
    intro budget used rest hn hused hend
    have hchain := ih budget used rest hn hused (hend.loose _)
    rw [fold_of_loose (hend.loose _)] at hchain
    rw [assignment, hchain]
    simp only [bind, Except.bind]
    split
    · rename_i span after
      rcases hend _ rfl with hl | hl | hl <;> cases hl
    · rfl
  | @assign k n m ls us x e _ _ ihx ihe =>
    intro budget used rest hn hused hend
    obtain ⟨target, others, rfl, htarget, hothers⟩ := List.map_eq_append_iff.1 hused
    obtain ⟨t, value, rfl, ht, hvalue⟩ := List.map_eq_cons_iff.1 hothers
    obtain ⟨sign, span⟩ := t
    obtain rfl : sign = .assign := ht
    obtain ⟨b, rfl⟩ : ∃ b, budget = b + 1 := ⟨budget - 1, by omega⟩
    have hchain := ihx (b + 1) target (⟨.assign, span⟩ :: (value ++ rest)) (by omega) htarget
      (loose_assign rfl _ _)
    rw [fold_of_loose (loose_assign rfl _ _)] at hchain
    have hval := ihe b value rest (by omega) hvalue hend
    rw [List.append_assoc, List.cons_append, assignment, hchain]
    simp only [bind, Except.bind, descend, hval]
  | @first level n ls e _ ih =>
    intro budget used rest hn hused hloose
    rw [chain, ih budget used rest hn hused hloose]
    rfl
  | @fold op k n m ls us lhs rhs _ _ ihl ihr =>
    intro budget used rest hn hused hloose
    obtain ⟨left, others, rfl, hleft, hothers⟩ := List.map_eq_append_iff.1 hused
    obtain ⟨t, right, rfl, ht, hright⟩ := List.map_eq_cons_iff.1 hothers
    obtain ⟨b, hb⟩ : ∃ b, budget - k = b + 1 := ⟨budget - k - 1, by omega⟩
    have hchain := ihl budget left (t :: (right ++ rest)) (by omega) hleft (loose_sign ht _)
    have hop : op.level.op? t.lexeme = some op := Level.op?_eq_some_iff.2 ⟨rfl, ht⟩
    have hoperand := ihr b right rest (by omega) hright hloose
    have hrest : budget - (k + 1) = b := by omega
    rw [List.append_assoc, List.cons_append, hchain, hb, hrest, fold.eq_def]
    simp only [hop, bind, Except.bind, descend, hoperand]
  | @inner level tight k n ls e htight _ ih =>
    intro budget used rest hn hused hloose
    have hrank := Level.rank_of_tighter? htight
    have hchain := ih budget used rest hn hused (hloose.mono (by omega))
    rw [fold_of_loose (hrank ▸ hloose)] at hchain
    rw [operand.eq_def]
    cases level <;> cases htight <;> exact hchain
  | @tightest n ls e _ ih =>
    intro budget used rest hn hused _
    rw [operand.eq_def]
    exact ih budget used rest hn hused
  | @unary op n ls e _ ih =>
    intro budget used rest hn hused
    obtain ⟨t, operand, rfl, ht, hoperand⟩ := List.map_eq_cons_iff.1 hused
    obtain ⟨b, rfl⟩ : ∃ b, budget = b + 1 := ⟨budget - 1, by omega⟩
    have hop : unaryOp? t.lexeme = some op := unaryOp?_eq_some_iff.2 ht
    have hval := ih b operand rest (by omega) hoperand
    rw [List.cons_append, unary]
    simp only [bind, Except.bind, descend, hop, hval]
  | @primary n ls e hp ih =>
    intro budget used rest hn hused
    obtain ⟨l, us, rfl, hl, -⟩ := exists_cons_of_primary hp
    obtain ⟨t, others, rfl, ht, hothers⟩ := List.map_eq_cons_iff.1 hused
    obtain ⟨b, rfl⟩ : ∃ b, budget = b + 1 := ⟨budget - 1, by omega⟩
    have hnone : unaryOp? t.lexeme = none := ht ▸ hl
    have hval := ih b t others rest (by omega) hused
    rw [List.cons_append, unary]
    simp only [bind, Except.bind, descend, hnone, hval]
  | @atom l e ha =>
    intro budget t used rest _ hused
    obtain ⟨rfl, hnil⟩ := List.cons_eq_cons.1 hused
    obtain rfl := List.map_eq_nil_iff.1 hnil
    rw [primary, atom?_eq_some_iff.2 ha]
    rfl
  | @parens n ls e _ ih =>
    intro budget t used rest hn hused
    obtain ⟨ht, hused⟩ := List.cons_eq_cons.1 hused
    obtain ⟨inside, others, rfl, hinside, hothers⟩ := List.map_eq_append_iff.1 hused
    obtain ⟨close, nothing, rfl, hclose, hnil⟩ := List.map_eq_cons_iff.1 hothers
    obtain rfl := List.map_eq_nil_iff.1 hnil
    obtain ⟨sign, span⟩ := close
    obtain rfl : sign = .parenClose := hclose
    have hval := ih budget inside (⟨.parenClose, span⟩ :: rest) hn hinside (by
      intro t' ht'
      cases ht'
      exact Or.inr (Or.inr rfl))
    rw [List.append_assoc, List.singleton_append, primary, ht]
    simp only [atom?, bind, Except.bind, hval]

/-- The lexemes that an expression starts with. -/
def StartsExpr (l : Lexeme) : Prop :=
  (∃ e, Atom l e) ∨ (∃ op : UnaryOp, l = op.sign) ∨ l = .parenOpen

theorem exists_cons_of_derives {f : Form} {n : Nat} {ls : List Lexeme} {e : Expr}
    (h : Derives f n ls e) : ∃ l us, ls = l :: us ∧ StartsExpr l := by
  induction h with
  | value _ ih | first _ ih | inner _ _ ih | tightest _ ih | primary _ ih => exact ih
  | assign _ _ ih _ | fold _ _ ih _ =>
    obtain ⟨l, us, rfl, hl⟩ := ih
    exact ⟨l, _, rfl, hl⟩
  | unary _ _ => exact ⟨_, _, rfl, Or.inr (Or.inl ⟨_, rfl⟩)⟩
  | atom ha => exact ⟨_, _, rfl, Or.inl ⟨_, ha⟩⟩
  | parens _ _ => exact ⟨_, _, rfl, Or.inr (Or.inr rfl)⟩

/-- No expression starts like another statement. -/
theorem StartsExpr.ne {l : Lexeme} (h : StartsExpr l) :
    l ≠ .semicolon ∧ l ≠ .braceOpen ∧ l ≠ .braceClose ∧ l ≠ .kwDebugger ∧ l ≠ .kwLet ∧
      l ≠ .kwVar := by
  rcases h with ⟨e, ha⟩ | ⟨op, rfl⟩ | rfl
  · cases ha <;> simp
  · cases op <;> simp [UnaryOp.sign]
  · simp

theorem Terminator.found (stop : Nat) {us : List Lexeme} {next : Option Lexeme}
    (h : Terminator us next) {used rest : List Token} (hused : used.map Token.lexeme = us)
    (hnext : rest.head?.map Token.lexeme = next) :
    (∃ span, terminator stop (used ++ rest) = .ok (span, rest)) ∧ Ended (used ++ rest) := by
  cases h with
  | semicolon =>
    obtain ⟨t, nothing, rfl, ht, hnil⟩ := List.map_eq_cons_iff.1 hused
    obtain rfl := List.map_eq_nil_iff.1 hnil
    refine ⟨⟨t.span, by simp only [terminator, List.singleton_append, ht]⟩, fun t' ht' => ?_⟩
    cases ht'
    exact Or.inl ht
  | beforeBrace =>
    obtain rfl := List.map_eq_nil_iff.1 hused
    cases rest with
    | nil => cases hnext
    | cons t rest =>
      have ht : t.lexeme = .braceClose := Option.some.inj hnext
      refine ⟨⟨t.span, by simp only [terminator, List.nil_append, ht]⟩, fun t' ht' => ?_⟩
      cases ht'
      exact Or.inr (Or.inl ht)
  | atEnd =>
    obtain rfl := List.map_eq_nil_iff.1 hused
    cases rest with
    | nil =>
      refine ⟨⟨_, rfl⟩, fun t' ht' => ?_⟩
      cases ht'
    | cons t rest => cases hnext

theorem initialiser_of_terminator (stop budget : Nat) {us : List Lexeme} {next : Option Lexeme}
    (h : Terminator us next) {used rest : List Token} (hused : used.map Token.lexeme = us)
    (hnext : rest.head?.map Token.lexeme = next) :
    initialiser stop budget (used ++ rest) = .ok (none, used ++ rest) := by
  have hend := (h.found stop hused hnext).2
  unfold initialiser
  split
  · rename_i span after heq
    rcases hend ⟨.assign, span⟩ (by rw [heq]; rfl) with hl | hl | hl <;> cases hl
  · rfl

/-- A statement that is no block and not empty is read as such. -/
theorem statement_of_simple {budget : Nat} {t : Token} {ts rest : List Token} {s : Stmt}
    (hsemi : t.lexeme ≠ .semicolon) (hopen : t.lexeme ≠ .braceOpen)
    (h : simple stop budget t ts = .ok (s, rest)) :
    statement stop budget t ts = .ok (s, ⟨rest, simple_length h⟩) := by
  rw [statement.eq_def]
  split
  · rename_i hl
    exact absurd hl hsemi
  · rename_i hl
    exact absurd hl hopen
  · have hbounded : ∀ (r : Except Misread (Stmt × List Token)) (hr : r = .ok (s, rest))
        (hb : ∀ s rest, r = .ok (s, rest) → rest.length ≤ ts.length),
        bounded r hb = .ok (s, ⟨rest, hb s rest hr⟩) := by
      rintro _ rfl _
      rfl
    exact hbounded _ h _

/-- No statement starts with a closing brace. -/
theorem exists_cons_of_statement {n : Nat} {ls : List Lexeme} {next : Option Lexeme} {s : Stmt}
    (h : Statement n ls next s) : ∃ l us, ls = l :: us ∧ l ≠ .braceClose := by
  cases h with
  | empty => exact ⟨_, _, rfl, nofun⟩
  | pause hend => exact ⟨_, _, rfl, nofun⟩
  | block hbody => exact ⟨_, _, rfl, nofun⟩
  | @declare how => exact ⟨_, _, rfl, by cases how <;> nofun⟩
  | @initialise how => exact ⟨_, _, rfl, by cases how <;> nofun⟩
  | expr hval hend =>
    obtain ⟨l, us, rfl, hl⟩ := exists_cons_of_derives hval
    exact ⟨l, _, rfl, hl.ne.2.2.1⟩

/-- The token `t` and those of `ts` before `rest` are read as the statement `s` with other spans. -/
def StatementFound (stop budget : Nat) (t : Token) (ts rest : List Token) (s : Stmt) : Prop :=
  ∃ s' h, statement stop budget t ts = .ok (s', ⟨rest, h⟩) ∧ s'.bare = s.bare

/-- The tokens of `ts` before `rest` are read as the statements `body` with other spans. -/
def StatementsFound (stop budget : Nat) (ts rest : List Token) (body : List Stmt) : Prop :=
  ∃ body' h, statements stop budget ts = .ok (body', ⟨rest, h⟩) ∧ bareBody body' = bareBody body

theorem statementsFound_nil (stop budget : Nat) {rest : List Token}
    (h : ∀ t ∈ rest.head?, t.lexeme = .braceClose) : StatementsFound stop budget rest rest [] := by
  refine ⟨[], Nat.le_refl _, ?_, rfl⟩
  rw [statements.eq_def]
  cases rest with
  | nil => rfl
  | cons t rest => simp only [h t rfl]

theorem statementsFound_cons {stop budget : Nat} {t : Token} {ts left rest : List Token} {s : Stmt}
    {body : List Stmt} (ht : t.lexeme ≠ .braceClose) (hs : StatementFound stop budget t ts left s)
    (hb : StatementsFound stop budget left rest body) :
    StatementsFound stop budget (t :: ts) rest (s :: body) := by
  obtain ⟨s', hlen, hread, hbare⟩ := hs
  obtain ⟨body', hlen', hread', hbare'⟩ := hb
  refine ⟨s' :: body', Nat.le_trans hlen' (Nat.le_succ_of_le hlen), ?_, ?_⟩
  · rw [statements.eq_def]
    dsimp only
    split
    · rename_i hbrace
      exact absurd hbrace ht
    · simp only [bind, Except.bind, hread, hread']
  · rw [bareBody, bareBody, hbare, hbare']

mutual

theorem Statement.found : ∀ {n : Nat} {ls : List Lexeme} {next : Option Lexeme} {s : Stmt},
    Statement n ls next s → ∀ (budget : Nat) {t : Token} {used rest : List Token}, n ≤ budget →
      (t :: used).map Token.lexeme = ls → rest.head?.map Token.lexeme = next →
      StatementFound stop budget t (used ++ rest) rest s
  | _, _, _, _, .empty, budget, t, used, rest, _, hused, _ => by
    obtain ⟨ht, hnil⟩ := List.cons_eq_cons.1 hused
    obtain rfl := List.map_eq_nil_iff.1 hnil
    refine ⟨.empty t.span, Nat.le_refl _, ?_, rfl⟩
    rw [statement.eq_def, ht]
    rfl
  | _, _, _, _, .pause hend, budget, t, used, rest, _, hused, hnext => by
    obtain ⟨ht, hused⟩ := List.cons_eq_cons.1 hused
    obtain ⟨⟨last, hlast⟩, -⟩ := hend.found stop hused hnext
    have hs : simple stop budget t (used ++ rest) = .ok (.pause (t.span.to last), rest) := by
      simp only [simple, ht, bind, Except.bind, hlast]
    exact ⟨_, _, statement_of_simple (by simp [ht]) (by simp [ht]) hs, rfl⟩
  | _, _, _, _, .block hbody, budget, t, used, rest, hn, hused, _ => by
    obtain ⟨ht, hused⟩ := List.cons_eq_cons.1 hused
    obtain ⟨inside, others, rfl, hinside, hothers⟩ := List.map_eq_append_iff.1 hused
    obtain ⟨close, nothing, rfl, hclose, hnil⟩ := List.map_eq_cons_iff.1 hothers
    obtain rfl := List.map_eq_nil_iff.1 hnil
    obtain ⟨b, rfl⟩ : ∃ b, budget = b + 1 := ⟨budget - 1, by omega⟩
    have hnext : (close :: rest).head?.map Token.lexeme = some .braceClose := congrArg some hclose
    obtain ⟨body', hlen, hread, hbare⟩ :=
      hbody.found b (by omega) hinside hnext (Or.inr rfl)
    have happend : (inside ++ [close]) ++ rest = inside ++ close :: rest := by simp
    rw [happend]
    refine ⟨.block (t.span.to close.span) body', Nat.le_trans (Nat.le_succ _) hlen, ?_, ?_⟩
    · rw [statement.eq_def, ht]
      simp only [bind, Except.bind, descend, hread]
    · exact congrArg (Stmt.block ⟨0, 0⟩) hbare
  | _, _, _, _, @Statement.declare how x _ _ _ hend, budget, t, used, rest, _, hused, hnext => by
    obtain ⟨ht, hused⟩ := List.cons_eq_cons.1 hused
    obtain ⟨⟨lexeme, span⟩, used', rfl, hname, hused'⟩ := List.map_eq_cons_iff.1 hused
    obtain rfl : lexeme = .name x := hname
    obtain ⟨⟨last, hlast⟩, -⟩ := hend.found stop hused' hnext
    have hinit := initialiser_of_terminator stop budget hend hused' hnext
    have hs : simple stop budget t (⟨.name x, span⟩ :: used' ++ rest) =
        .ok (.declare (t.span.to last) how x none, rest) := by
      cases how <;>
        simp only [simple, ht, Declaration.keyword, List.cons_append, declaration, bind, Except.bind,
          hinit, hlast]
    have hsemi : t.lexeme ≠ .semicolon := by cases how <;> simp [ht, Declaration.keyword]
    have hopen : t.lexeme ≠ .braceOpen := by cases how <;> simp [ht, Declaration.keyword]
    exact ⟨_, _, statement_of_simple hsemi hopen hs, rfl⟩
  | _, _, _, _, @Statement.initialise how x _ _ _ _ _ e hval hend, budget, t, used, rest, hn,
      hused, hnext => by
    obtain ⟨ht, hused⟩ := List.cons_eq_cons.1 hused
    obtain ⟨⟨lexeme, span⟩, others, rfl, hname, hothers⟩ := List.map_eq_cons_iff.1 hused
    obtain rfl : lexeme = .name x := hname
    obtain ⟨⟨lexeme', sign⟩, others', rfl, hassign, hothers'⟩ := List.map_eq_cons_iff.1 hothers
    obtain rfl : lexeme' = .assign := hassign
    obtain ⟨value, used', rfl, hvalue, hused'⟩ := List.map_eq_append_iff.1 hothers'
    obtain ⟨⟨last, hlast⟩, hended⟩ := hend.found stop hused' hnext
    have hread := reads_of_derives stop hval budget value (used' ++ rest) hn hvalue hended
    have hs : simple stop budget t (⟨.name x, span⟩ :: ⟨.assign, sign⟩ :: (value ++ used') ++ rest) =
        .ok (.declare (t.span.to last) how x (some e), rest) := by
      cases how <;>
        simp only [simple, ht, Declaration.keyword, List.cons_append, List.append_assoc, declaration,
          initialiser, bind, Except.bind, hread, hlast]
    have hsemi : t.lexeme ≠ .semicolon := by cases how <;> simp [ht, Declaration.keyword]
    have hopen : t.lexeme ≠ .braceOpen := by cases how <;> simp [ht, Declaration.keyword]
    exact ⟨_, _, statement_of_simple hsemi hopen hs, rfl⟩
  | _, _, _, _, @Statement.expr _ _ _ _ _ e hval hend, budget, t, used, rest, hn, hused, hnext => by
    obtain ⟨value, used', hsplit, hvalue, hused'⟩ := List.map_eq_append_iff.1 hused
    obtain ⟨⟨last, hlast⟩, hended⟩ := hend.found stop hused' hnext
    have hread := reads_of_derives stop hval budget value (used' ++ rest) hn hvalue hended
    rw [← List.append_assoc, ← hsplit] at hread
    obtain ⟨l, us, hl, hstart⟩ := exists_cons_of_derives hval
    have ht : t.lexeme = l := by
      obtain ⟨t', value', rfl, ht', -⟩ := List.map_eq_cons_iff.1 (hvalue.trans hl)
      obtain ⟨rfl, -⟩ := List.cons_eq_cons.1 hsplit
      exact ht'
    obtain ⟨hsemi, hopen, -, hdebugger, hlet, hvar⟩ := ht ▸ hstart.ne
    have hs : simple stop budget t (used ++ rest) = .ok (.expr (t.span.to last) e, rest) := by
      unfold simple
      split
      · rename_i h
        exact absurd h hdebugger
      · rename_i h
        exact absurd h hlet
      · rename_i h
        exact absurd h hvar
      · rw [List.cons_append] at hread
        simp only [bind, Except.bind, hread, hlast]
    exact ⟨_, _, statement_of_simple hsemi hopen hs, rfl⟩

/-- **Every list of statements that is derived is read**, up to spans, where a closing brace or the
end comes next. -/
theorem Statements.found : ∀ {n : Nat} {ls : List Lexeme} {next : Option Lexeme}
    {body : List Stmt}, Statements n ls next body → ∀ (budget : Nat) {used rest : List Token},
      n ≤ budget → used.map Token.lexeme = ls → rest.head?.map Token.lexeme = next →
      next = none ∨ next = some .braceClose →
      StatementsFound stop budget (used ++ rest) rest body
  | _, _, _, _, .nil, budget, used, rest, _, hused, hnext, hstop => by
    obtain rfl := List.map_eq_nil_iff.1 hused
    rw [List.nil_append]
    refine statementsFound_nil stop budget fun t ht => ?_
    rw [ht, Option.map_some] at hnext
    subst hnext
    rcases hstop with h | h
    · cases h
    · exact Option.some.inj h
  | _, _, _, _, .cons hs hmore, budget, used, rest, hn, hused, hnext, hstop => by
    obtain ⟨first, others, rfl, hfirst, hothers⟩ := List.map_eq_append_iff.1 hused
    obtain ⟨l, us, hl, hclose⟩ := exists_cons_of_statement hs
    obtain ⟨t, first, rfl, ht, -⟩ := List.map_eq_cons_iff.1 (hfirst.trans hl)
    have hafter := head?_lexeme_append others rest
    rw [hothers, hnext] at hafter
    rw [List.append_assoc, List.cons_append]
    exact statementsFound_cons (ht ▸ hclose) (hs.found budget (by omega) hfirst hafter)
      (hmore.found budget (by omega) hothers hnext hstop)

end

/-! ### Whole scripts -/

/-- What is read is a script of the grammar. -/
theorem script_of_ofTokens {ts : List Token} {body : List Stmt}
    (h : ofTokens stop ts = .ok body) :
    ∃ n ≤ maxNesting, Script n (ts.map Token.lexeme) body := by
  unfold ofTokens at h
  obtain ⟨⟨found, left, hl⟩, hs, h⟩ := bind_eq_ok.1 h
  obtain ⟨⟨used, n, hts, hn, hbody⟩, -⟩ := statements_derived hs
  dsimp only at h
  split at h
  · cases h
    have hts : ts = used ++ [] := hts
    rw [List.append_nil] at hts
    exact ⟨n, hn, hts ▸ hbody⟩
  · simp [fail] at h

/-- A script is read in full by a reader whose budget is not smaller than its nesting. -/
theorem Script.found (stop : Nat) {n budget : Nat} {ts : List Token} {tree : List Stmt}
    (h : Script n (ts.map Token.lexeme) tree) (hn : n ≤ budget) :
    StatementsFound stop budget ts [] tree := by
  have hfound : StatementsFound stop budget (ts ++ []) [] tree :=
    Statements.found h budget hn rfl rfl (Or.inl rfl)
  rwa [List.append_nil] at hfound

/-- A sequence of lexemes has one tree, whatever the derivations and their nesting. -/
theorem Script.unique {n m : Nat} {ts : List Token} {tree tree' : List Stmt}
    (h : Script n (ts.map Token.lexeme) tree) (h' : Script m (ts.map Token.lexeme) tree') :
    bareBody tree = bareBody tree' := by
  obtain ⟨body, hlen, hread, hbare⟩ := h.found 0 (Nat.le_max_left n m)
  obtain ⟨body', hlen', hread', hbare'⟩ := h'.found 0 (Nat.le_max_right n m)
  cases hread.symm.trans hread'
  exact hbare.symm.trans hbare'

theorem ofTokens_of_script (stop : Nat) {n : Nat} {ts : List Token} {tree : List Stmt}
    (h : Script n (ts.map Token.lexeme) tree) (hn : n ≤ maxNesting) :
    ∃ body, ofTokens stop ts = .ok body ∧ bareBody body = bareBody tree := by
  obtain ⟨body, hlen, hread, hbare⟩ := h.found stop hn
  refine ⟨body, ?_, hbare⟩
  unfold ofTokens
  simp only [bind, Except.bind, hread]

/-! ### Sources -/

/-- The tree of a source is derived within the limit of nesting. -/
theorem exists_script_of_ofSource {source : Source} {body : List Stmt}
    (h : Tree.ofSource source = .ok body) :
    ∃ (ts : List Token) (n : Nat), n ≤ maxNesting ∧ Script n (ts.map Token.lexeme) body := by
  unfold Tree.ofSource at h
  split at h
  · rename_i hread
    cases h
    obtain ⟨ts, -, hts⟩ := bind_eq_ok.1 hread
    obtain ⟨n, hn, hscript⟩ := script_of_ofTokens hts
    exact ⟨ts, n, hn, hscript⟩
  · cases h

/-- An expression alone is a script. -/
theorem Script.of_derives {n : Nat} {ls : List Lexeme} {e : Expr}
    (h : Derives .assignment n ls e) : Script n ls [.expr ⟨0, 0⟩ e] := by
  have hs : Statement n (ls ++ []) none (.expr ⟨0, 0⟩ e) := .expr h .atEnd
  have hb : Statements (max n 0) ((ls ++ []) ++ []) none [.expr ⟨0, 0⟩ e] := .cons hs .nil
  rw [Nat.max_zero, List.append_nil, List.append_nil] at hb
  exact hb

/-- A text whose tokens are an expression is read as the statement that is this expression. -/
theorem ofSource_of_derives {text : String} {ts : List Token} {n : Nat} {e : Expr} (name : String)
    (hts : Token.ofText text = .ok ts) (h : Derives .assignment n (ts.map Token.lexeme) e)
    (hn : n ≤ maxNesting) :
    ∃ span, Tree.ofSource (Source.ofText name text) = .ok [.expr span e] := by
  obtain ⟨body, hbody, hbare⟩ := ofTokens_of_script text.utf8ByteSize (Script.of_derives h) hn
  have hread : (Token.ofText (Source.ofText name text).text >>=
      ofTokens (Source.ofText name text).text.utf8ByteSize) = .ok body := by
    have htext : Token.ofText (Source.ofText name text).text = .ok ts := hts
    rw [htext]
    exact hbody
  have hsource : Tree.ofSource (Source.ofText name text) = .ok body := by
    unfold Tree.ofSource
    rw [hread]
  match body, hbare with
  | [.expr span _], hbare =>
    cases hbare
    exact ⟨span, hsource⟩

end Grammar

/-- **The reader accepts exactly the grammar.** A sequence of tokens is read as a script if and only if
its lexemes are derived within the limit of nesting; and the tree that is read is, up to spans, that of
every derivation. -/
theorem accepts_iff_derivable (stop : Nat) (ts : List Token) :
    ((∃ body, Tree.ofTokens stop ts = .ok body) ↔
      ∃ n ≤ Tree.maxNesting, ∃ tree, Grammar.Script n (ts.map Token.lexeme) tree) ∧
    ∀ body, Tree.ofTokens stop ts = .ok body →
      ∀ n tree, Grammar.Script n (ts.map Token.lexeme) tree → bareBody body = bareBody tree := by
  refine ⟨⟨fun ⟨body, h⟩ => ?_, fun ⟨n, hn, tree, h⟩ => ?_⟩, fun body h n tree htree => ?_⟩
  · obtain ⟨n, hn, hbody⟩ := Grammar.script_of_ofTokens h
    exact ⟨n, hn, body, hbody⟩
  · obtain ⟨body, hbody, -⟩ := Grammar.ofTokens_of_script stop h hn
    exact ⟨body, hbody⟩
  · obtain ⟨m, -, hbody⟩ := Grammar.script_of_ofTokens h
    exact hbody.unique htree

/-- An assignment to a name in parentheses, whose own value is an assignment, with nothing at its
end. -/
theorem assignment_in_parentheses_derived :
    let ls : List Lexeme := [.braceOpen, .parenOpen, .name "x", .parenClose, .assign, .name "y",
      .assign, .minus, .kwThis, .star, .kwNull, .braceClose]
    let tree : List Stmt := [.block ⟨0, 0⟩ [.expr ⟨0, 0⟩ (.assign "x" (.assign "y"
      (.binary .mul (.unary .neg .self) .null)))]]
    (∃ n ≤ Tree.maxNesting, ∃ tree, Grammar.Script n ls tree) ∧
      ∀ n other, Grammar.Script n ls other → bareBody tree = bareBody other := by
  intro ls tree
  let ts : List Token := ls.map fun l => ⟨l, ⟨0, 0⟩⟩
  have hts : Tree.ofTokens 0 ts = .ok tree := by cbv
  obtain ⟨haccept, hunique⟩ := accepts_iff_derivable 0 ts
  exact ⟨haccept.1 ⟨tree, hts⟩, hunique tree hts⟩

end ScriptDebug
