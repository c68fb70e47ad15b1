/-
# Two readers side by side

The reader that is held to limits and the one that is not are taken along the same
tokens. `Tree.Held.Reads` says that they give the same there and have got to the same
place, and `Tree.Held.Agrees` that they do so wherever there are calls enough for what
is left of the nesting: twelve for each level of it, and some more, fewer the further a
function stands down the grammar. Every way around in the grammar goes one deeper, so
the calls on it are paid for, and the functions that read expressions agree with any
number of calls (`Tree.Held.within`).

A loop of the one reader is a recursion of the other. Its rounds are compared one by
one (`Tree.Held.Reads.rounds`): each has to have taken a token.

Key definitions: `Tree.Input.From`, `Tree.Held.Reads`, `Tree.Held.Agrees`,
`Tree.Held.Within`.
Key theorems: `Tree.Held.Reads.bind`, `Tree.Held.Reads.rounds`,
`Tree.Held.rounds_chainRound`, `Tree.Held.within`.
-/
import ScriptDebug.Proofs.Script.Held
import ScriptDebug.Proofs.Script.Shift

namespace ScriptDebug
namespace Tree

/-! ### Where a reader stands -/

namespace Input

variable {i : Input} {pos : Nat} {t : Token} {ts : List Token}

/-- From the index on stand these tokens, and then the end token. -/
structure From (i : Input) (pos : Nat) (ts : List Token) : Prop where
  le : pos ≤ i.tokens.length
  drop : i.tokens.drop pos = ts

theorem from_zero (i : Input) : i.From 0 i.tokens := ⟨Nat.zero_le _, rfl⟩

theorem From.add_length (h : i.From pos ts) : pos + ts.length = i.tokens.length := by
  have hle := h.le
  rw [← h.drop, List.length_drop]
  omega

theorem From.tail (h : i.From pos (t :: ts)) : i.From (pos + 1) ts := by
  have hlength := h.add_length
  rw [List.length_cons] at hlength
  refine ⟨by omega, ?_⟩
  rw [← List.drop_drop, h.drop, List.drop_succ_cons, List.drop_zero]

/-- There is a token at the index: the next one, or the end token. -/
theorem From.getElem? (h : i.From pos ts) : i.sequence[pos]? = some ts.head? := by
  have hlength := h.add_length
  unfold sequence
  cases ts with
  | nil =>
    rw [List.getElem?_append_right (by simpa using hlength.ge), List.length_map]
    simp [← hlength]
  | cons t ts =>
    rw [List.length_cons] at hlength
    have hhead : i.tokens[pos]? = some t := by
      rw [← List.head?_drop, h.drop]
      rfl
    rw [List.getElem?_append_left (by rw [List.length_map]; omega), List.getElem?_map, hhead]
    rfl

theorem start_span_head? (i : Input) (ts : List Token) :
    (i.span ts.head?).start = here i.stop ts := by
  cases ts <;> rfl

end Input

namespace Held

variable {i : Input} {α β σ : Type} {pos d b : Nat} {t : Token} {ts : List Token}
  {p : Lexeme → Bool}

theorem bind_of_ok {r : Reader α} {k : α → Reader β} {a : α} {c c' : Cursor}
    (h : r c = .ok (a, c')) : (r >>= k) c = k a c' := by
  show r c >>= _ = _
  rw [h]
  rfl

theorem bind_of_error {r : Reader α} {k : α → Reader β} {e : Halt} {c : Cursor}
    (h : r c = .error e) : (r >>= k) c = .error e := by
  show r c >>= _ = _
  rw [h]
  rfl

theorem peek_from (h : i.From pos ts) : peek i ⟨pos, d⟩ = .ok (ts.head?, ⟨pos, d⟩) := by
  simp only [peek, h.getElem?]

theorem advance_from (h : i.From pos (t :: ts)) :
    advance i ⟨pos, d⟩ = .ok (some t, ⟨pos + 1, d⟩) := by
  unfold advance
  rw [bind_of_ok (peek_from h)]
  rfl

theorem advance_end (h : i.From pos []) : advance i ⟨pos, d⟩ = .ok (none, ⟨pos, d⟩) := by
  unfold advance
  rw [bind_of_ok (peek_from h)]
  rfl

theorem check_from (h : i.From pos ts) :
    check i p ⟨pos, d⟩ = .ok (ts.head?.any fun t => p t.lexeme, ⟨pos, d⟩) := by
  unfold check
  rw [bind_of_ok (peek_from h)]
  rfl

theorem eat_of_pos (h : i.From pos (t :: ts)) (hp : p t.lexeme = true) :
    eat i p ⟨pos, d⟩ = .ok (true, ⟨pos + 1, d⟩) := by
  unfold eat
  rw [bind_of_ok (check_from h), List.head?_cons, Option.any_some, if_pos hp,
    bind_of_ok (advance_from h)]
  rfl

theorem eat_of_neg (h : i.From pos ts) (hp : ts.head?.any (fun t => p t.lexeme) = false) :
    eat i p ⟨pos, d⟩ = .ok (false, ⟨pos, d⟩) := by
  unfold eat
  rw [bind_of_ok (check_from h), hp]
  rfl

theorem refuse_from (h : i.From pos ts) (problem : SyntaxProblem) :
    (refuse i problem : Reader α) ⟨pos, d⟩ = .error (.misread ⟨problem, here i.stop ts⟩) := by
  unfold refuse
  rw [bind_of_ok (peek_from h), i.start_span_head?]
  rfl

theorem expect_of_pos {problem : SyntaxProblem} (h : i.From pos (t :: ts))
    (hp : p t.lexeme = true) :
    expect i p problem ⟨pos, d⟩ = .ok ((), ⟨pos + 1, d⟩) := by
  unfold expect
  rw [bind_of_ok (eat_of_pos h hp)]
  rfl

theorem expect_of_neg {problem : SyntaxProblem} (h : i.From pos ts)
    (hp : ts.head?.any (fun t => p t.lexeme) = false) :
    expect i p problem ⟨pos, d⟩ = .error (.misread ⟨problem, here i.stop ts⟩) := by
  unfold expect
  rw [bind_of_ok (eat_of_neg h hp), if_neg Bool.false_ne_true, refuse_from h]

theorem descend_of_zero (h : i.From pos ts) (hd : d = maxNesting) :
    descend i ⟨pos, d⟩ = .error (.misread ⟨.nestedTooDeeply, here i.stop ts⟩) := by
  have hdeep : maxNesting < d + 1 := by omega
  show (if maxNesting < d + 1 then refuse i .nestedTooDeeply else pure ()) ⟨pos, d + 1⟩ = _
  rw [if_pos hdeep, refuse_from h]

theorem descend_of_lt (hd : d < maxNesting) : descend i ⟨pos, d⟩ = .ok ((), ⟨pos, d + 1⟩) := by
  have hdeep : ¬maxNesting < d + 1 := by omega
  show (if maxNesting < d + 1 then refuse i .nestedTooDeeply else pure ()) ⟨pos, d + 1⟩ = _
  rw [if_neg hdeep]
  rfl

theorem ascend_one : ascend 1 ⟨pos, d + 1⟩ = .ok ((), ⟨pos, d⟩) := rfl

/-! ### Agreement -/

/-- The reader that is held to limits gives what the other one gives, and in the end it is as deep
as `d` and stands where the other one has got to. -/
inductive Reads (i : Input) (d : Nat) :
    Except Misread (α × List Token) → Except Halt (α × Cursor) → Prop
  | ok {a : α} {left : List Token} {pos : Nat} (h : i.From pos left) :
    Reads i d (.ok (a, left)) (.ok (a, ⟨pos, d⟩))
  | error (m : Misread) : Reads i d (.error m) (.error (.misread m))

theorem Reads.halts {m : Misread} {y : Except Halt (α × Cursor)} (h : Reads i d (.error m) y) :
    y = .error (.misread m) := by
  cases h
  rfl

theorem Reads.gives {a : α} {left : List Token} {y : Except Halt (α × Cursor)}
    (h : Reads i d (.ok (a, left)) y) : ∃ pos, i.From pos left ∧ y = .ok (a, ⟨pos, d⟩) := by
  cases h with
  | ok hfrom => exact ⟨_, hfrom, rfl⟩

theorem Reads.bind {x : Except Misread (α × List Token)} {r : Reader α} {c : Cursor}
    {f : α × List Token → Except Misread (β × List Token)} {k : α → Reader β} {d' : Nat}
    (h : Reads i d x (r c))
    (hk : ∀ a left pos, x = .ok (a, left) → i.From pos left →
      Reads i d' (f (a, left)) (k a ⟨pos, d⟩)) :
    Reads i d' (x >>= f) ((r >>= k) c) := by
  generalize hr : r c = y at h
  cases h with
  | ok hfrom =>
    rw [bind_of_ok hr]
    exact hk _ _ _ rfl hfrom
  | error m =>
    rw [bind_of_error hr]
    exact .error m

/-- Going deeper takes one from what is left of the nesting. -/
theorem Reads.descend {f : { n : Nat // n < b } → Except Misread (β × List Token)}
    {k : Unit → Reader β} {d' : Nat} (h : i.From pos ts) (hb : d + b = maxNesting)
    (hk : ∀ inner, (hlt : inner < b) → d + 1 + inner = maxNesting →
      Reads i d' (f ⟨inner, hlt⟩) (k () ⟨pos, d + 1⟩)) :
    Reads i d' (Tree.descend b (here i.stop ts) >>= f) ((Held.descend i >>= k) ⟨pos, d⟩) := by
  cases b with
  | zero =>
    rw [bind_of_error (descend_of_zero h (by omega))]
    exact .error _
  | succ inner =>
    rw [bind_of_ok (descend_of_lt (by omega))]
    exact hk inner (Nat.lt_succ_self inner) (by omega)

/-- Coming up again at the end. -/
theorem Reads.ascend {x : Except Misread (α × List Token)} {r : Reader α} {c : Cursor}
    (h : Reads i (d + 1) x (r c)) :
    Reads i d x ((r >>= fun a => Held.ascend 1 >>= fun _ => return a) c) := by
  generalize hr : r c = y at h
  cases h with
  | ok hfrom =>
    rw [bind_of_ok hr, bind_of_ok ascend_one]
    exact .ok hfrom
  | error m =>
    rw [bind_of_error hr]
    exact .error m

/-- A closing parenthesis behind what was read. -/
theorem Reads.closing (h : i.From pos ts) (a : α) :
    Reads i d
      (match ts with
        | ⟨.parenClose, _⟩ :: rest => .ok (a, rest)
        | _ => fail .expectedParenClose (here i.stop ts))
      ((expect i (· matches .parenClose) .expectedParenClose >>= fun _ => return a) ⟨pos, d⟩) := by
  cases ts with
  | nil =>
    rw [bind_of_error (expect_of_neg h rfl)]
    exact .error _
  | cons t ts =>
    obtain ⟨lexeme, span⟩ := t
    cases lexeme with
    | parenClose =>
      rw [bind_of_ok (expect_of_pos h rfl)]
      exact .ok h.tail
    | _ =>
      rw [bind_of_error (expect_of_neg h rfl)]
      exact .error _

/-! ### Loops -/

section

variable {round : σ → Reader (σ ⊕ α)} {s : σ} {a : α} {c c' : Cursor}

theorem rounds_of_error {e : Halt} (h : round s c = .error e) : rounds i round s c = .error e := by
  rw [rounds.eq_def, h]

theorem rounds_of_done (h : round s c = .ok (.inr a, c')) : rounds i round s c = .ok (a, c') := by
  rw [rounds.eq_def, h]

theorem rounds_of_next {s' : σ} (h : round s c = .ok (.inl s', c')) (hpos : c.pos < c'.pos)
    (hle : c'.pos ≤ i.tokens.length) : rounds i round s c = rounds i round s' c' := by
  rw [rounds.eq_def, h]
  dsimp only
  rw [if_neg (by omega), if_neg (by omega)]

/-- A round that reads something, at `c₁`, and goes on. It has to have taken a token. -/
theorem Reads.rounds {x : Except Misread (β × List Token)} {r : Reader β} {c₁ : Cursor} {g : β → σ}
    {f : β × List Token → Except Misread (α × List Token)} {d' : Nat} (hfrom : i.From c.pos ts)
    (hround : round s c = (r >>= fun b => return .inl (g b)) c₁) (h : Reads i d x (r c₁))
    (hshorter : ∀ b left, x = .ok (b, left) → left.length < ts.length)
    (hnext : ∀ b left pos, x = .ok (b, left) → i.From pos left →
      Reads i d' (f (b, left)) (rounds i round (g b) ⟨pos, d⟩)) :
    Reads i d' (x >>= f) (rounds i round s c) := by
  generalize hr : r c₁ = y at h
  cases h with
  | ok hleft =>
    rw [bind_of_ok hr] at hround
    have htaken := hshorter _ _ rfl
    have hlength := hfrom.add_length
    have hlength' := hleft.add_length
    rw [rounds_of_next hround (by dsimp only; omega) hleft.le]
    exact hnext _ _ _ rfl hleft
  | error m =>
    rw [bind_of_error hr] at hround
    rw [rounds_of_error hround]
    exact .error m

end

/-! ### Expressions -/

/-- With `n` calls the reader agrees with the other one wherever there are calls enough for the
nesting that is left, twelve for each level of it, and `k` more. -/
def Agrees (i : Input) (n k : Nat) (r : Reader α)
    (f : Nat → List Token → Except Misread (α × List Token)) : Prop :=
  ∀ ⦃b d pos ts⦄, 12 * b + k ≤ n → d + b = maxNesting → i.From pos ts →
    Reads i d (f b ts) (r ⟨pos, d⟩)

/-- What stands at the front is read as a primary expression. -/
def primaryFrom (stop b : Nat) : List Token → Except Misread (Expr × List Token)
  | [] => fail .unexpectedEnd stop
  | t :: ts => Tree.primary stop b t ts

/-- The functions that read expressions agree with `n` calls. -/
structure Within (i : Input) (n : Nat) : Prop where
  expression : Agrees i n 11 (expression i n) (Tree.assignment i.stop)
  assignment : Agrees i n 10 (assignment i n) (Tree.assignment i.stop)
  level : ∀ l : Level, Agrees i n (2 * l.rank + 1) (level i n l) fun b => Tree.chain i.stop b l
  chain : ∀ l : Level, Agrees i n (2 * l.rank) (chain i n l) fun b => Tree.chain i.stop b l
  unary : Agrees i n 1 (unary i n) (Tree.unary i.stop)
  primary : Agrees i n 12 (primary i n) (primaryFrom i.stop)

theorem fold_end {stop : Nat} {l : Level} (lhs : Expr)
    (hop : ts.head?.bind (fun t => l.op? t.lexeme) = none) :
    Tree.fold stop b l lhs ts = .ok (lhs, ts) := by
  rw [Tree.fold.eq_def]
  cases ts with
  | nil => rfl
  | cons t ts =>
    rw [List.head?_cons, Option.bind_some] at hop
    simp only [hop]

theorem fold_operator {stop : Nat} {l : Level} {op : BinaryOp} (lhs : Expr)
    (hop : l.op? t.lexeme = some op) :
    Tree.fold stop b l lhs (t :: ts) = Tree.descend b (here stop ts) >>= fun inner =>
      Tree.operand stop inner l ts >>= fun r =>
        Tree.fold stop inner l (.binary op lhs r.1) r.2 := by
  rw [Tree.fold.eq_def]
  simp only [hop]

/-- At the end of a chain what its operators took of the nesting is given back. -/
theorem chainRound_end {l : Level} {next : Reader Expr} (lhs : Expr) (folds : Nat)
    (h : i.From pos ts) (hop : ts.head?.bind (fun t => l.op? t.lexeme) = none) :
    chainRound i l next (lhs, folds) ⟨pos, d + folds⟩ = .ok (.inr lhs, ⟨pos, d⟩) := by
  rw [chainRound, bind_of_ok (peek_from h), hop]
  show Except.ok (Sum.inr lhs, Cursor.mk pos (d + folds - folds)) = _
  rw [Nat.add_sub_cancel]

theorem chainRound_operator {l : Level} {op : BinaryOp} (next : Reader Expr) (lhs : Expr)
    (folds : Nat) (h : i.From pos (t :: ts)) (hop : l.op? t.lexeme = some op) :
    chainRound i l next (lhs, folds) ⟨pos, d⟩ =
      (descend i >>= fun _ => next >>= fun rhs => return .inl (.binary op lhs rhs, folds + 1))
        ⟨pos + 1, d⟩ := by
  rw [chainRound, bind_of_ok (peek_from h), List.head?_cons, Option.bind_some, hop]
  exact bind_of_ok (advance_from h)

/-- The operators of a level and what stands behind them. Each is paid for while the chain goes on,
and all are given back at its end. -/
theorem rounds_chainRound {n k b d pos : Nat} {ts : List Token} {l : Level} {next : Reader Expr}
    (hnext : Agrees i n k next fun b => Tree.operand i.stop b l) (folds : Nat) (lhs : Expr)
    (hn : 12 * b + k ≤ n) (hb : d + folds + b = maxNesting) (hfrom : i.From pos ts) :
    Reads i d (Tree.fold i.stop b l lhs ts)
      (rounds i (chainRound i l next) (lhs, folds) ⟨pos, d + folds⟩) := by
  cases hop : ts.head?.bind fun t => l.op? t.lexeme with
  | none =>
    rw [fold_end lhs hop, rounds_of_done (chainRound_end lhs folds hfrom hop)]
    exact .ok hfrom
  | some op =>
    obtain ⟨t, ht, hop⟩ := Option.bind_eq_some_iff.1 hop
    obtain ⟨ts, rfl⟩ := List.head?_eq_some_iff.1 ht
    have hround := chainRound_operator (d := d + folds) next lhs folds hfrom hop
    rw [fold_operator lhs hop]
    cases b with
    | zero =>
      rw [bind_of_error (descend_of_zero hfrom.tail (by omega))] at hround
      rw [rounds_of_error hround]
      exact .error _
    | succ b =>
      rw [bind_of_ok (descend_of_lt (by omega))] at hround
      have hrhs := hnext (b := b) (d := d + folds + 1) (by omega) (by omega) hfrom.tail
      refine Reads.rounds hfrom hround hrhs
        (fun rhs left hrhs => Nat.lt_succ_of_lt (operand_shorter hrhs))
        fun rhs left pos _ hleft => ?_
      exact rounds_chainRound (b := b) hnext (folds + 1) _ (by omega) (by omega) hleft

namespace Within

variable {n : Nat} (h : Within i n)

include h

theorem expression_succ :
    Agrees i (n + 1) 11 (Held.expression i (n + 1)) (Tree.assignment i.stop) := by
  intro b d pos ts hn hb hfrom
  rw [Held.expression]
  exact h.assignment (by omega) hb hfrom

theorem assignment_succ :
    Agrees i (n + 1) 10 (Held.assignment i (n + 1)) (Tree.assignment i.stop) := by
  intro b d pos ts hn hb hfrom
  rw [Held.assignment, Tree.assignment]
  refine (h.level .equality (by simp only [Level.rank]; omega) hb hfrom).bind
    fun target left pos _ hleft => ?_
  rw [bind_of_ok (check_from hleft)]
  cases left with
  | nil => exact .ok hleft
  | cons t left =>
    obtain ⟨lexeme, span⟩ := t
    cases lexeme with
    | assign =>
      rw [List.head?_cons, Option.any_some, if_pos rfl, bind_of_ok (advance_from hleft)]
      refine .descend hleft.tail hb fun inner hlt hb' => ?_
      refine (h.assignment (by omega) hb' hleft.tail).bind fun value left pos _ hleft => ?_
      rw [bind_of_ok ascend_one]
      cases target with
      | name x => exact .ok hleft
      | _ => exact .error _
    | _ => exact .ok hleft

theorem level_succ (l : Level) :
    Agrees i (n + 1) (2 * l.rank + 1) (Held.level i (n + 1) l) fun b => Tree.chain i.stop b l := by
  intro b d pos ts hn hb hfrom
  rw [Held.level]
  exact h.chain l (by omega) hb hfrom

/-- What a level takes as its operands. -/
theorem operand (l : Level) : Agrees i n (2 * l.rank - 1)
    (match l with
      | .equality => Held.level i n .comparison
      | .comparison => Held.level i n .additive
      | .additive => Held.level i n .multiplicative
      | .multiplicative => Held.unary i n)
    fun b => Tree.operand i.stop b l := by
  intro b d pos ts hn hb hfrom
  dsimp only
  rw [Tree.operand.eq_def]
  cases l with
  | equality => exact h.level .comparison hn hb hfrom
  | comparison => exact h.level .additive hn hb hfrom
  | additive => exact h.level .multiplicative hn hb hfrom
  | multiplicative => exact h.unary hn hb hfrom

theorem chain_succ (l : Level) :
    Agrees i (n + 1) (2 * l.rank) (Held.chain i (n + 1) l) fun b => Tree.chain i.stop b l := by
  intro b d pos ts hn hb hfrom
  have hrank : 0 < l.rank := by cases l <;> decide
  dsimp only
  rw [Held.chain.eq_def, Tree.chain]
  refine (h.operand l (by omega) hb hfrom).bind fun lhs left pos _ hleft => ?_
  exact rounds_chainRound (h.operand l) 0 lhs (by omega) hb hleft

theorem unary_succ : Agrees i (n + 1) 1 (Held.unary i (n + 1)) (Tree.unary i.stop) := by
  intro b d pos ts hn hb hfrom
  rw [Held.unary, Tree.unary]
  refine .descend hfrom hb fun inner hlt hb' => ?_
  have hprimary := h.primary (by omega) hb' hfrom
  rw [bind_of_ok (peek_from hfrom)]
  cases ts with
  | nil => exact hprimary.ascend
  | cons t ts =>
    rw [List.head?_cons, Option.bind_some]
    dsimp only
    cases unaryOp? t.lexeme with
    | some op =>
      dsimp only
      rw [bind_of_ok (advance_from hfrom)]
      refine (h.unary (by omega) hb' hfrom.tail).bind fun e left pos _ hleft => ?_
      rw [bind_of_ok ascend_one]
      exact .ok hleft
    | none => exact hprimary.ascend

theorem primary_succ : Agrees i (n + 1) 12 (Held.primary i (n + 1)) (primaryFrom i.stop) := by
  intro b d pos ts hn hb hfrom
  rw [Held.primary, bind_of_ok (peek_from hfrom)]
  cases ts with
  | nil =>
    rw [List.head?_nil]
    dsimp only
    rw [refuse_from hfrom]
    exact .error _
  | cons t ts =>
    rw [primaryFrom, Tree.primary, List.head?_cons]
    dsimp only
    cases atom? t.lexeme with
    | some e =>
      dsimp only
      rw [bind_of_ok (advance_from hfrom)]
      exact .ok hfrom.tail
    | none =>
      by_cases hopen : t.lexeme = .parenOpen
      · rw [hopen]
        dsimp only
        rw [if_pos rfl, bind_of_ok (advance_from hfrom)]
        refine (h.expression (by omega) hb hfrom.tail).bind fun e left pos _ hleft => ?_
        exact .closing hleft e
      · dsimp only
        split
        · rename_i hopen'
          exact absurd hopen' hopen
        · rw [if_neg (by simp), refuse_from hfrom]
          exact .error _

end Within

/-- With any number of calls the functions that read expressions agree. -/
theorem within (i : Input) (n : Nat) : Within i n := by
  induction n with
  | zero =>
    refine ⟨?_, ?_, fun l => ?_, fun l => ?_, ?_, ?_⟩ <;> intro b d pos ts hn
    · omega
    · omega
    · omega
    · have hrank : 0 < l.rank := by cases l <;> decide
      omega
    · omega
    · omega
  | succ n ih =>
    exact ⟨ih.expression_succ, ih.assignment_succ, ih.level_succ, ih.chain_succ, ih.unary_succ,
      ih.primary_succ⟩

end Held
end Tree
end ScriptDebug
