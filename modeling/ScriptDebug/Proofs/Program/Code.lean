/-
# What compiled code looks like

The pool of constants only grows, so an index that was given out stays good
(`Expr.extends_code`, `Stmt.extends_piece`), and what stands there is the literal
itself: the pool is searched by comparison, but it holds strings and numbers
without a sign, which comparison tells apart (`place_spec`).

The code of an expression has a shape: it leaves one value more on the stack
(`Expr.through_code`). The code of a statement leaves the stack and the scopes
as they were (`Stmt.through_piece`). And code uses only names of the tree.

Key definitions: `Extends`, `Value.IsLiteral`.
Key theorems: `place_spec`, `Expr.through_code`, `bodyPiece_through`.
-/
import ScriptDebug.Program.OfTree
import ScriptDebug.Proofs.Machine.Shape

namespace ScriptDebug

/-! ### The pool of constants -/

/-- The constants of the first pool stand at their places in the second. -/
def Extends (pool pool' : Array Value) : Prop :=
  ∀ (i : Nat) (v : Value), pool[i]? = some v → pool'[i]? = some v

namespace Extends

theorem refl (pool : Array Value) : Extends pool pool := fun _ _ h => h

theorem trans {a b c : Array Value} (h : Extends a b) (h' : Extends b c) : Extends a c :=
  fun i v hi => h' i v (h i v hi)

theorem size_le {pool pool' : Array Value} (h : Extends pool pool') : pool.size ≤ pool'.size := by
  cases hs : pool.size with
  | zero => exact Nat.zero_le _
  | succ n =>
    have hn : n < pool.size := by omega
    obtain ⟨hlt, -⟩ := Array.getElem?_eq_some_iff.1 (h n pool[n] (Array.getElem?_eq_getElem hn))
    exact hlt

end Extends

/-- A value that a literal can write. -/
def Value.IsLiteral : Value → Prop
  | .number x => Number.Unsigned x
  | .string _ => True
  | _ => False

/-- Comparison tells literals apart. -/
theorem Value.IsLiteral.eq_of_same {v w : Value} (hv : v.IsLiteral) (hw : w.IsLiteral)
    (h : v.same w = true) : v = w := by
  cases v <;> cases w <;> first | exact hv.elim | exact hw.elim | skip
  · exact congrArg Value.number (Number.eq_of_unsigned_beq hv hw h)
  · cases h
  · cases h
  · exact congrArg Value.string (eq_of_beq h)

theorem extends_place (v : Value) (pool : Array Value) : Extends pool (place v pool).2 := by
  unfold place
  split
  · exact .refl pool
  · intro i w hi
    obtain ⟨hlt, rfl⟩ := Array.getElem?_eq_some_iff.1 hi
    rw [Array.getElem?_push_lt hlt]

theorem place_lt (v : Value) (pool : Array Value) : (place v pool).1 < (place v pool).2.size := by
  unfold place
  split
  · rename_i i hi
    exact (Array.findIdx?_eq_some_iff_getElem.1 hi).1
  · exact (Array.size_push v).symm ▸ Nat.lt_succ_self _

/-- A literal stands where it was placed, in a pool of literals. -/
theorem place_spec {v : Value} {pool : Array Value} (hv : v.IsLiteral)
    (hp : ∀ w ∈ pool, w.IsLiteral) :
    (place v pool).2[(place v pool).1]? = some v ∧ ∀ w ∈ (place v pool).2, w.IsLiteral := by
  unfold place
  split
  · rename_i i hi
    obtain ⟨hlt, hs, -⟩ := Array.findIdx?_eq_some_iff_getElem.1 hi
    refine ⟨?_, hp⟩
    rw [Array.getElem?_eq_getElem hlt]
    exact congrArg some ((hp _ (Array.getElem_mem hlt)).eq_of_same hv hs)
  · refine ⟨Array.getElem?_push_size, fun w hw => ?_⟩
    rcases Array.mem_push.1 hw with hw | rfl
    · exact hp w hw
    · exact hv

/-! ### Expressions -/

namespace Expr

variable (g : Bool)

theorem code_unary (op : UnaryOp) (e : Expr) (pool : Array Value) :
    (unary op e).code g pool = ((e.code g pool).1 ++ [op.instruction], (e.code g pool).2) := rfl

theorem code_binary (op : BinaryOp) (l r : Expr) (pool : Array Value) :
    (binary op l r).code g pool =
      ((l.code g pool).1 ++ (r.code g (l.code g pool).2).1 ++ [.binary op],
        (r.code g (l.code g pool).2).2) := rfl

theorem code_assign (x : String) (e : Expr) (pool : Array Value) :
    (assign x e).code g pool = ((e.code g pool).1 ++ [.storeName x], (e.code g pool).2) := rfl

theorem extends_code (e : Expr) (pool : Array Value) : Extends pool (e.code g pool).2 := by
  induction e generalizing pool with
  | number x => exact extends_place _ pool
  | string s => exact extends_place _ pool
  | bool | null | undefined | self | name => exact .refl pool
  | unary op e ih => exact ih pool
  | binary op l r ihl ihr => exact (ihl pool).trans (ihr _)
  | assign x e ih => exact ih pool

/-- The code of an expression leaves one value on the stack. -/
theorem through_code (e : Expr) (pool : Array Value) {n : Nat} (hn : (e.code g pool).2.size ≤ n)
    (h d : Nat) : Shape.through? n (e.code g pool).1 ⟨h, d⟩ = some ⟨h + 1, d⟩ := by
  induction e generalizing pool h with
  | number x | string s =>
    have hlt := Nat.lt_of_lt_of_le (place_lt _ pool) hn
    simp only [code, Shape.through?, Shape.after?, if_pos hlt, Option.bind_some]
  | bool | null | undefined | name => rfl
  | self => cases g <;> rfl
  | unary op e ih =>
    rw [code_unary, Shape.through?_append, ih pool hn h, Option.bind_some]
    cases op <;> rfl
  | binary op l r ihl ihr =>
    have hl := Nat.le_trans (extends_code g r (l.code g pool).2).size_le hn
    rw [code_binary, Shape.through?_append, Shape.through?_append, ihl pool hl h, Option.bind_some,
      ihr _ hn (h + 1), Option.bind_some]
    rfl
  | assign x e ih =>
    rw [code_assign, Shape.through?_append, ih pool hn h, Option.bind_some]
    rfl

/-- The code of an expression uses the names of the expression. -/
theorem within_code {V : Vocabulary} (e : Expr) (he : e.Within V) (pool : Array Value) :
    ∀ i ∈ (e.code g pool).1, i.Within V := by
  induction e generalizing pool with
  | number | string | bool | null | undefined =>
    intro i hi
    rw [List.mem_singleton.1 hi]
    trivial
  | self =>
    intro i hi
    rw [List.mem_singleton.1 hi]
    cases g <;> trivial
  | name x =>
    intro i hi
    rw [List.mem_singleton.1 hi]
    exact he
  | unary op e ih =>
    rw [code_unary]
    refine List.forall_mem_append.2 ⟨ih he pool, List.forall_mem_singleton.2 ?_⟩
    cases op <;> trivial
  | binary op l r ihl ihr =>
    rw [code_binary]
    exact List.forall_mem_append.2 ⟨List.forall_mem_append.2 ⟨ihl he.1 pool, ihr he.2 _⟩,
      List.forall_mem_singleton.2 trivial⟩
  | assign x e ih =>
    rw [code_assign]
    exact List.forall_mem_append.2 ⟨ih he.2 pool, List.forall_mem_singleton.2 he.1⟩

/-- The pool holds literals only. -/
theorem literal_code {V : Vocabulary} (hV : ∀ x, V.number x → Number.Unsigned x) (e : Expr)
    (he : e.Within V) (pool : Array Value) (hp : ∀ v ∈ pool, v.IsLiteral) :
    ∀ v ∈ (e.code g pool).2, v.IsLiteral := by
  induction e generalizing pool with
  | number x =>
    have hx : (Value.number x).IsLiteral := hV x he
    exact (place_spec hx hp).2
  | string s =>
    have hs : (Value.string s).IsLiteral := trivial
    exact (place_spec hs hp).2
  | bool | null | undefined | self | name => exact hp
  | unary op e ih => exact ih he pool hp
  | binary op l r ihl ihr => exact ihr he.2 _ (ihl he.1 pool hp)
  | assign x e ih => exact ih he.2 pool hp

end Expr

/-! ### Statements -/

variable (g : Bool)

namespace Stmt

theorem piece_declare (pc : Nat) (pool : Array Value) (span : Span) (how : Declaration)
    (x : String) (init : Option Expr) :
    (declare span how x init).piece g pc pool =
      ⟨((init.getD .undefined).code g pool).1 ++ [how.instruction x], [⟨pc, span.start⟩],
        ((init.getD .undefined).code g pool).2⟩ := rfl

theorem piece_expr (pc : Nat) (pool : Array Value) (span : Span) (e : Expr) :
    (expr span e).piece g pc pool =
      ⟨(e.code g pool).1 ++ [.saveResult], [⟨pc, span.start⟩], (e.code g pool).2⟩ := rfl

/-- The code of a block, and of what stands in it. -/
theorem code_block (pc : Nat) (pool : Array Value) (span : Span) (body : List Stmt) :
    ((block span body).piece g pc pool).code =
      .enterBlock :: ((bodyPiece g (pc + 1) pool body).code ++ [.leaveBlock]) := rfl

theorem pool_block (pc : Nat) (pool : Array Value) (span : Span) (body : List Stmt) :
    ((block span body).piece g pc pool).pool = (bodyPiece g (pc + 1) pool body).pool := rfl

end Stmt

theorem bodyPiece_cons (pc : Nat) (pool : Array Value) (s : Stmt) (body : List Stmt) :
    (bodyPiece g pc pool (s :: body)).code =
        (s.piece g pc pool).code ++ (bodyPiece g (pc + (s.piece g pc pool).code.length)
          (s.piece g pc pool).pool body).code ∧
      (bodyPiece g pc pool (s :: body)).pool =
        (bodyPiece g (pc + (s.piece g pc pool).code.length) (s.piece g pc pool).pool body).pool :=
  ⟨rfl, rfl⟩

mutual

theorem Stmt.extends_piece (pc : Nat) (pool : Array Value) :
    ∀ s : Stmt, Extends pool (s.piece g pc pool).pool
  | .empty _ | .pause _ => .refl pool
  | .declare _ _ _ _ => Expr.extends_code g _ pool
  | .expr _ e => e.extends_code g pool
  | .block _ body => bodyPiece_extends (pc + 1) pool body

theorem bodyPiece_extends (pc : Nat) (pool : Array Value) :
    ∀ body : List Stmt, Extends pool (bodyPiece g pc pool body).pool
  | [] => .refl pool
  | s :: body => (s.extends_piece pc pool).trans (bodyPiece_extends _ _ body)

end

mutual

/-- The code of a statement leaves the stack and the scopes as they were. -/
theorem Stmt.through_piece {n : Nat} (pc : Nat) (pool : Array Value) (h d : Nat) :
    ∀ s : Stmt, (s.piece g pc pool).pool.size ≤ n →
      Shape.through? n (s.piece g pc pool).code ⟨h, d⟩ = some ⟨h, d⟩
  | .empty _, _ | .pause _, _ => rfl
  | .declare _ how _ _, hn => by
    rw [Stmt.piece_declare, Shape.through?_append, Expr.through_code g _ pool hn]
    cases how <;> rfl
  | .expr _ e, hn => by
    rw [Stmt.piece_expr, Shape.through?_append, e.through_code g pool hn]
    rfl
  | .block span body, hn => by
    have ih := bodyPiece_through (pc + 1) pool h (d + 1) body hn
    rw [Stmt.code_block, ← List.cons_append, Shape.through?_append]
    simp only [Shape.through?, Shape.after?, Option.bind_some, ih]

theorem bodyPiece_through {n : Nat} (pc : Nat) (pool : Array Value) (h d : Nat) :
    ∀ body : List Stmt, (bodyPiece g pc pool body).pool.size ≤ n →
      Shape.through? n (bodyPiece g pc pool body).code ⟨h, d⟩ = some ⟨h, d⟩
  | [], _ => rfl
  | s :: body, hn => by
    have hs := Nat.le_trans (bodyPiece_extends g _ _ body).size_le hn
    rw [(bodyPiece_cons g pc pool s body).1, Shape.through?_append, s.through_piece pc pool h d hs,
      Option.bind_some]
    exact bodyPiece_through _ _ h d body hn

end

mutual

/-- The code of a statement uses the names of the statement. -/
theorem Stmt.within_piece {V : Vocabulary} (pc : Nat) (pool : Array Value) :
    ∀ s : Stmt, s.Within V → ∀ i ∈ (s.piece g pc pool).code, i.Within V
  | .empty _, _ => fun _ hi => nomatch hi
  | .pause _, _ => List.forall_mem_singleton.2 trivial
  | .declare _ how x init, hs => by
    rw [Stmt.piece_declare]
    refine List.forall_mem_append.2 ⟨Expr.within_code g _ hs.2 pool, ?_⟩
    refine List.forall_mem_singleton.2 ?_
    cases how with
    | lexical => trivial
    | globalProperty => exact hs.1 rfl
  | .expr _ e, hs => by
    rw [Stmt.piece_expr]
    exact List.forall_mem_append.2 ⟨e.within_code g hs pool, List.forall_mem_singleton.2 trivial⟩
  | .block span body, hs => by
    rw [Stmt.code_block]
    refine List.forall_mem_cons.2 ⟨trivial, List.forall_mem_append.2 ⟨?_, ?_⟩⟩
    · exact bodyPiece_within (pc + 1) pool body hs
    · exact List.forall_mem_singleton.2 trivial

theorem bodyPiece_within {V : Vocabulary} (pc : Nat) (pool : Array Value) :
    ∀ body : List Stmt, BodyWithin V body → ∀ i ∈ (bodyPiece g pc pool body).code, i.Within V
  | [], _ => fun _ hi => nomatch hi
  | s :: body, hs => by
    rw [(bodyPiece_cons g pc pool s body).1]
    exact List.forall_mem_append.2 ⟨s.within_piece pc pool hs.1, bodyPiece_within _ _ body hs.2⟩

end

mutual

theorem Stmt.literal_piece {V : Vocabulary} (hV : ∀ x, V.number x → Number.Unsigned x) (pc : Nat)
    (pool : Array Value) (hp : ∀ v ∈ pool, v.IsLiteral) :
    ∀ s : Stmt, s.Within V → ∀ v ∈ (s.piece g pc pool).pool, v.IsLiteral
  | .empty _, _ | .pause _, _ => hp
  | .declare _ _ _ _, hs => Expr.literal_code g hV _ hs.2 pool hp
  | .expr _ e, hs => e.literal_code g hV hs pool hp
  | .block _ body, hs => bodyPiece_literal hV (pc + 1) pool hp body hs

theorem bodyPiece_literal {V : Vocabulary} (hV : ∀ x, V.number x → Number.Unsigned x) (pc : Nat)
    (pool : Array Value) (hp : ∀ v ∈ pool, v.IsLiteral) :
    ∀ body : List Stmt, BodyWithin V body → ∀ v ∈ (bodyPiece g pc pool body).pool, v.IsLiteral
  | [], _ => hp
  | s :: body, hs =>
    bodyPiece_literal hV _ _ (s.literal_piece hV pc pool hp hs.1) body hs.2

end

/-! ### Programs -/

/-- The statements that a program is compiled from: those of a fragment stand in a block. -/
def Mode.unit (mode : Mode) (body : List Stmt) : List Stmt :=
  if mode.isFragment then [.block ⟨0, 0⟩ body] else body

namespace Program

/-- The code of a program is that of its statements and a halt. -/
theorem ofTree_code (source : Source) (mode : Mode) (body : List Stmt) :
    (ofTree source mode body).code.toList =
      (bodyPiece mode.globalSelf 0 #[] (mode.unit body)).code ++ [.halt] := by
  unfold ofTree Mode.unit
  split
  · simp only [bodyPiece, Stmt.piece, List.append_nil, List.cons_append, List.append_assoc]
    rfl
  · rfl

theorem ofTree_constants (source : Source) (mode : Mode) (body : List Stmt) :
    (ofTree source mode body).constants =
      (bodyPiece mode.globalSelf 0 #[] (mode.unit body)).pool := by
  unfold ofTree Mode.unit
  split <;> rfl

theorem unit_within {V : Vocabulary} (mode : Mode) {body : List Stmt} (h : BodyWithin V body) :
    BodyWithin V (mode.unit body) := by
  unfold Mode.unit
  split
  · exact ⟨h, trivial⟩
  · exact h

theorem ofSource_eq_ok {source : Source} {mode : Mode} {p : Program} :
    ofSource source mode = .ok p ↔
      ∃ body, Tree.ofSource source = .ok body ∧ ofTree source mode body = p := by
  unfold ofSource
  cases Tree.ofSource source with
  | error e => simp [Except.map]
  | ok body => simp [Except.map]

end Program
end ScriptDebug
