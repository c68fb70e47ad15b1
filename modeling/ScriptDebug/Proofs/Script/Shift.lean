/-
# Moving a text

What stands further on in a text is read like what stands at its beginning. The
scanner finds the same lexemes at offsets that are moved (`Token.scan_shift`), and
from tokens that are moved the reader makes the same tree with its spans moved, or
reports the same problem at an offset that is moved (`Tree.readBody_shift`). No
part of the reader looks at an offset other than to report it.

The reader of statements carries bounds on what it leaves along. `Tree.readBody` is
what it reads without them.

Key definitions: `Token.shift`, `Stmt.shift`, `Misread.shift`, `Tree.moved`,
`Tree.readBody`.
Key theorems: `Token.scan_shift`, `Tree.assignment_shift`, `Tree.readBody_shift`,
`Tree.ofTokens_shift`.
-/
import ScriptDebug.Proofs.Script.Locality

namespace ScriptDebug

def Span.shift (k : Nat) (s : Span) : Span := ⟨s.start + k, s.stop + k⟩

def Token.shift (k : Nat) (t : Token) : Token := ⟨t.lexeme, t.span.shift k⟩

def Misread.shift (k : Nat) (m : Misread) : Misread := ⟨m.problem, m.offset + k⟩

mutual

/-- The statement with every span in it moved. -/
def Stmt.shift (k : Nat) : Stmt → Stmt
  | .empty span => .empty (span.shift k)
  | .pause span => .pause (span.shift k)
  | .declare span how x init => .declare (span.shift k) how x init
  | .expr span e => .expr (span.shift k) e
  | .block span body => .block (span.shift k) (shiftBody k body)

def shiftBody (k : Nat) : List Stmt → List Stmt
  | [] => []
  | s :: body => s.shift k :: shiftBody k body

end

/-! ### Tokens -/

namespace Token

/-- **The scanner finds the same lexemes further on**, and puts them after the tokens it has. -/
theorem scan_shift (k : Nat) (first tokens : Array Token) (o : Nat) (cs : List Char) :
    scan (first ++ tokens.map (Token.shift k)) (o + k) cs =
      match scan tokens o cs with
      | .ok found => .ok (first ++ found.map (Token.shift k))
      | .error m => .error (m.shift k) := by
  fun_induction scan tokens o cs with
  | case1 tokens o => rw [scan.eq_def]
  | case2 tokens o c cs hc ih =>
    rw [scan_space _ _ hc, ← ih, Nat.add_right_comm]
  | case3 tokens o c cs _ hc ih =>
    rw [scan_slashes _ _ hc, ← ih]
    congr 1
    omega
  | case4 tokens o c cs hspace hcomment problem hread =>
    rw [scan.eq_def]
    dsimp only
    rw [if_neg hspace, if_neg hcomment]
    split
    · rename_i herror
      rw [hread] at herror
      cases herror
      rfl
    · rename_i hok
      rw [hread] at hok
      cases hok
  | case5 tokens o c cs hspace hcomment l width rest hread ih =>
    have hpush : (first ++ tokens.map (Token.shift k)).push ⟨l, ⟨o + k, o + k + width⟩⟩ =
        first ++ (tokens.push ⟨l, ⟨o, o + width⟩⟩).map (Token.shift k) := by
      rw [Array.map_push, Array.append_push, Nat.add_right_comm o k width]
      rfl
    rw [scan_lexeme _ _ hspace hcomment hread, ← ih, hpush, Nat.add_right_comm]

end Token

/-! ### Expressions -/

namespace Tree

variable {stop k : Nat} {α β : Type}

/-- What was read is moved, with the tokens that are left, and a problem is moved. -/
def moved (k : Nat) (move : α → α) :
    Except Misread (α × List Token) → Except Misread (α × List Token)
  | .ok (a, rest) => .ok (move a, rest.map (Token.shift k))
  | .error m => .error (m.shift k)

theorem moved_bind {move : α → α} {move' : β → β} {x : Except Misread (α × List Token)}
    {next next' : α × List Token → Except Misread (β × List Token)}
    (h : ∀ a rest, x = .ok (a, rest) →
      next' (move a, rest.map (Token.shift k)) = moved k move' (next (a, rest))) :
    (moved k move x >>= next') = moved k move' (x >>= next) := by
  cases x with
  | error m => rfl
  | ok r => exact h r.1 r.2 rfl

theorem descend_bind {move : β → β} {budget offset : Nat}
    {next next' : { b : Nat // b < budget } → Except Misread (β × List Token)}
    (h : ∀ inner, next' inner = moved k move (next inner)) :
    (descend budget (offset + k) >>= next') = moved k move (descend budget offset >>= next) := by
  cases budget with
  | zero => rfl
  | succ b => exact h _

theorem here_shift (ts : List Token) :
    here (stop + k) (ts.map (Token.shift k)) = here stop ts + k := by
  cases ts <;> rfl

mutual

theorem assignment_shift (k budget : Nat) (ts : List Token) :
    assignment (stop + k) budget (ts.map (Token.shift k)) =
      moved k id (assignment stop budget ts) := by
  rw [assignment, assignment, chain_shift]
  refine moved_bind fun target rest _ => ?_
  cases rest with
  | nil => rfl
  | cons t rest =>
    obtain ⟨lexeme, span⟩ := t
    cases lexeme with
    | assign =>
      rw [List.map_cons]
      dsimp only [Token.shift]
      rw [here_shift]
      refine descend_bind fun ⟨inner, hi⟩ => ?_
      dsimp only
      rw [assignment_shift]
      exact moved_bind fun value left _ => by cases target <;> rfl
    | _ => rfl
termination_by (budget, 10)

theorem chain_shift (k budget : Nat) (level : Level) (ts : List Token) :
    chain (stop + k) budget level (ts.map (Token.shift k)) =
      moved k id (chain stop budget level ts) := by
  rw [chain, chain, operand_shift]
  exact moved_bind fun lhs rest _ => fold_shift k budget level lhs rest
termination_by (budget, 2 * level.rank + 1)

theorem fold_shift (k budget : Nat) (level : Level) (lhs : Expr) (ts : List Token) :
    fold (stop + k) budget level lhs (ts.map (Token.shift k)) =
      moved k id (fold stop budget level lhs ts) := by
  cases ts with
  | nil => rw [List.map_nil, fold.eq_def, fold.eq_def stop]; rfl
  | cons t rest =>
    rw [List.map_cons, fold.eq_def, fold.eq_def stop]
    dsimp only [Token.shift]
    cases level.op? t.lexeme with
    | none => rfl
    | some op =>
      dsimp only
      rw [here_shift]
      refine descend_bind fun ⟨inner, hi⟩ => ?_
      dsimp only
      rw [operand_shift]
      exact moved_bind fun rhs left _ => fold_shift k inner level _ left
termination_by (budget, 0)

theorem operand_shift (k budget : Nat) (level : Level) (ts : List Token) :
    operand (stop + k) budget level (ts.map (Token.shift k)) =
      moved k id (operand stop budget level ts) := by
  rw [operand.eq_def, operand.eq_def stop]
  cases level with
  | equality => exact chain_shift k budget .comparison ts
  | comparison => exact chain_shift k budget .additive ts
  | additive => exact chain_shift k budget .multiplicative ts
  | multiplicative => exact unary_shift k budget ts
termination_by (budget, 2 * level.rank)

theorem unary_shift (k budget : Nat) (ts : List Token) :
    unary (stop + k) budget (ts.map (Token.shift k)) = moved k id (unary stop budget ts) := by
  rw [unary, unary, here_shift]
  refine descend_bind fun ⟨inner, hi⟩ => ?_
  cases ts with
  | nil => rfl
  | cons t rest =>
    rw [List.map_cons]
    dsimp only [Token.shift]
    cases unaryOp? t.lexeme with
    | none => exact primary_shift k inner t rest
    | some op =>
      dsimp only
      rw [unary_shift]
      exact moved_bind fun e left _ => rfl
termination_by (budget, 0)

theorem primary_shift (k budget : Nat) (t : Token) (ts : List Token) :
    primary (stop + k) budget (t.shift k) (ts.map (Token.shift k)) =
      moved k id (primary stop budget t ts) := by
  rw [primary, primary]
  dsimp only [Token.shift]
  cases atom? t.lexeme with
  | some e => rfl
  | none =>
    dsimp only
    split
    · rw [assignment_shift]
      refine moved_bind fun e left _ => ?_
      cases left with
      | nil => rfl
      | cons t left =>
        obtain ⟨lexeme, span⟩ := t
        cases lexeme <;> rfl
    · rfl
termination_by (budget, 11)

end

/-! ### Statements -/

theorem terminator_shift (ts : List Token) :
    terminator (stop + k) (ts.map (Token.shift k)) = moved k (Span.shift k) (terminator stop ts) := by
  cases ts with
  | nil => rfl
  | cons t rest =>
    obtain ⟨lexeme, span⟩ := t
    cases lexeme <;> rfl

theorem initialiser_shift (budget : Nat) (ts : List Token) :
    initialiser (stop + k) budget (ts.map (Token.shift k)) =
      moved k id (initialiser stop budget ts) := by
  cases ts with
  | nil => rfl
  | cons t rest =>
    obtain ⟨lexeme, span⟩ := t
    cases lexeme with
    | assign =>
      show (assignment _ _ (rest.map (Token.shift k)) >>= _) = _
      rw [assignment_shift]
      exact moved_bind fun value left _ => rfl
    | _ => rfl

theorem declaration_shift (budget : Nat) (how : Declaration) (start : Span) (ts : List Token) :
    declaration (stop + k) budget how (start.shift k) (ts.map (Token.shift k)) =
      moved k (Stmt.shift k) (declaration stop budget how start ts) := by
  cases ts with
  | nil => rfl
  | cons t rest =>
    obtain ⟨lexeme, span⟩ := t
    cases lexeme with
    | name x =>
      show (initialiser _ _ (rest.map (Token.shift k)) >>= _) = _
      rw [initialiser_shift]
      refine moved_bind fun init left _ => ?_
      dsimp only
      rw [terminator_shift]
      exact moved_bind fun last left _ => rfl
    | _ => rfl

theorem simple_shift (budget : Nat) (t : Token) (ts : List Token) :
    simple (stop + k) budget (t.shift k) (ts.map (Token.shift k)) =
      moved k (Stmt.shift k) (simple stop budget t ts) := by
  have hcons : t.shift k :: ts.map (Token.shift k) = (t :: ts).map (Token.shift k) := rfl
  unfold simple
  rw [hcons, assignment_shift, terminator_shift]
  dsimp only [Token.shift]
  split
  · exact moved_bind fun last left _ => rfl
  · exact declaration_shift budget _ _ ts
  · exact declaration_shift budget _ _ ts
  · refine moved_bind fun value left _ => ?_
    dsimp only
    rw [terminator_shift]
    exact moved_bind fun last left _ => rfl

/-! ### What is read, without the bounds -/

/-- A result without the bound on what is left. -/
def unbounded {ts : List Token} (r : Except Misread (α × NotLonger ts)) :
    Except Misread (α × List Token) :=
  r.map fun r => (r.1, r.2.1)

def readStmt (stop budget : Nat) (t : Token) (ts : List Token) :
    Except Misread (Stmt × List Token) :=
  unbounded (statement stop budget t ts)

def readBody (stop budget : Nat) (ts : List Token) : Except Misread (List Stmt × List Token) :=
  unbounded (statements stop budget ts)

variable {budget : Nat}

theorem unbounded_eq_ok {ts rest : List Token} {r : Except Misread (α × NotLonger ts)} {a : α}
    (h : unbounded r = .ok (a, rest)) : ∃ hle : rest.length ≤ ts.length, r = .ok (a, ⟨rest, hle⟩) := by
  cases r with
  | error m => cases h
  | ok r =>
    cases h
    exact ⟨r.2.2, rfl⟩

theorem readStmt_length {t : Token} {ts rest : List Token} {s : Stmt}
    (h : readStmt stop budget t ts = .ok (s, rest)) : rest.length ≤ ts.length :=
  (unbounded_eq_ok h).1

theorem unbounded_bounded {ts : List Token} (r : Except Misread (Stmt × List Token))
    (h : ∀ s rest, r = .ok (s, rest) → rest.length ≤ ts.length) : unbounded (bounded r h) = r := by
  cases r <;> rfl

variable {t : Token}

theorem readStmt_semicolon (stop budget : Nat) (ht : t.lexeme = .semicolon) (ts : List Token) :
    readStmt stop budget t ts = .ok (.empty t.span, ts) := by
  unfold readStmt
  rw [statement.eq_def, ht]
  rfl

/-- A block takes what it is read from out of the statements inside it. -/
theorem readStmt_open (stop budget : Nat) (ht : t.lexeme = .braceOpen) (ts : List Token) :
    readStmt stop budget t ts = descend budget (here stop ts) >>= fun inner =>
      readBody stop inner ts >>= fun r =>
        match r.2 with
        | [] => fail .expectedBraceClose stop
        | close :: rest => .ok (.block (t.span.to close.span) r.1, rest) := by
  unfold readStmt
  rw [statement.eq_def, ht]
  cases descend budget (here stop ts) with
  | error m => rfl
  | ok inner =>
    show unbounded (statements stop inner ts >>= _) = (unbounded (statements stop inner ts) >>= _)
    cases statements stop inner ts with
    | error m => rfl
    | ok r =>
      obtain ⟨body, rest, hr⟩ := r
      cases rest <;> rfl

theorem readStmt_simple (stop budget : Nat) (hsemi : t.lexeme ≠ .semicolon)
    (hopen : t.lexeme ≠ .braceOpen) (ts : List Token) :
    readStmt stop budget t ts = simple stop budget t ts := by
  unfold readStmt
  rw [statement.eq_def]
  split
  · rename_i ht
    exact absurd ht hsemi
  · rename_i ht
    exact absurd ht hopen
  · exact unbounded_bounded _ _

theorem readBody_nil (stop budget : Nat) : readBody stop budget [] = .ok ([], []) := by
  unfold readBody
  rw [statements.eq_def]
  rfl

theorem readBody_close (stop budget : Nat) (ht : t.lexeme = .braceClose)
    (ts : List Token) : readBody stop budget (t :: ts) = .ok ([], t :: ts) := by
  unfold readBody
  rw [statements.eq_def]
  simp only [ht]
  rfl

/-- A statement and those after it. -/
theorem readBody_cons (stop budget : Nat) (ht : t.lexeme ≠ .braceClose) (ts : List Token) :
    readBody stop budget (t :: ts) = readStmt stop budget t ts >>= fun first =>
      readBody stop budget first.2 >>= fun others => .ok (first.1 :: others.1, others.2) := by
  unfold readBody readStmt
  rw [statements.eq_def]
  dsimp only
  split
  · rename_i hclose
    exact absurd hclose ht
  · cases statement stop budget t ts with
    | error m => rfl
    | ok r =>
      obtain ⟨s, left, hl⟩ := r
      show unbounded (statements stop budget left >>= _) =
        (unbounded (statements stop budget left) >>= _)
      cases statements stop budget left <;> rfl

theorem ofTokens_eq (stop : Nat) (ts : List Token) :
    ofTokens stop ts = readBody stop maxNesting ts >>= fun r =>
      match r.2 with
      | [] => .ok r.1
      | t :: _ => fail .unexpectedToken t.span.start := by
  unfold ofTokens readBody
  cases statements stop maxNesting ts <;> rfl

mutual

theorem readStmt_shift (k budget : Nat) (t : Token) (ts : List Token) :
    readStmt (stop + k) budget (t.shift k) (ts.map (Token.shift k)) =
      moved k (Stmt.shift k) (readStmt stop budget t ts) := by
  have hlexeme : (t.shift k).lexeme = t.lexeme := rfl
  by_cases hsemi : t.lexeme = .semicolon
  · rw [readStmt_semicolon _ _ hsemi, readStmt_semicolon _ _ (hlexeme.trans hsemi)]
    rfl
  by_cases hopen : t.lexeme = .braceOpen
  · rw [readStmt_open _ _ hopen, readStmt_open _ _ (hlexeme.trans hopen), here_shift]
    refine descend_bind fun inner => ?_
    rw [readBody_shift]
    refine moved_bind fun body rest _ => ?_
    cases rest <;> rfl
  · rw [readStmt_simple _ _ hsemi hopen, readStmt_simple _ _ (hlexeme ▸ hsemi) (hlexeme ▸ hopen)]
    exact simple_shift budget t ts
termination_by 2 * ts.length + 1

/-- **From tokens that are moved the same statements are read**, with their spans moved. -/
theorem readBody_shift (k budget : Nat) (ts : List Token) :
    readBody (stop + k) budget (ts.map (Token.shift k)) =
      moved k (shiftBody k) (readBody stop budget ts) := by
  cases ts with
  | nil => rw [List.map_nil, readBody_nil, readBody_nil]; rfl
  | cons t ts =>
    have hlexeme : (t.shift k).lexeme = t.lexeme := rfl
    rw [List.map_cons]
    by_cases hclose : t.lexeme = .braceClose
    · rw [readBody_close _ _ hclose, readBody_close _ _ (hlexeme.trans hclose)]
      rfl
    · rw [readBody_cons _ _ hclose, readBody_cons _ _ (hlexeme ▸ hclose), readStmt_shift]
      refine moved_bind fun s left hs => ?_
      have hlength := readStmt_length hs
      dsimp only
      rw [readBody_shift]
      exact moved_bind fun more rest _ => rfl
termination_by 2 * ts.length
decreasing_by
  all_goals
    subst_vars
    simp only [List.length_cons]
    omega

end

/-- **A whole text that is moved is read like the text.** -/
theorem ofTokens_shift (k stop : Nat) (ts : List Token) :
    ofTokens (stop + k) (ts.map (Token.shift k)) =
      match ofTokens stop ts with
      | .ok body => .ok (shiftBody k body)
      | .error m => .error (m.shift k) := by
  rw [ofTokens_eq, ofTokens_eq, readBody_shift]
  cases readBody stop maxNesting ts with
  | error m => rfl
  | ok r =>
    obtain ⟨body, rest⟩ := r
    cases rest <;> rfl

end Tree
end ScriptDebug
