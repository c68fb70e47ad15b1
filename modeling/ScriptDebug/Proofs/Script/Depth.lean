/-
# How deep a tree can be

The depth of a place in a tree is the number of blocks around it and of the operators
and assignments on the way from the root to it. The limit on nesting bounds what is
open at one time while a text is read. It does not bound the depth: what a chain of
operators took from the budget is given back at its end, and the next chain around it
can take it again, on each of the four levels and inside each pair of parentheses.

What the limit does bound is a way that never turns to the left operand of an
operator: each turn to the left is one step that may come free of charge
(`nesting_bounds_paths`). And the deepest expression grows with the square of the
budget. With a budget of `n`, two at least, it has the depth `2 * n * (n - 1) + 1`
(`Grammar.Derives.path_le`), and `Grammar.tower` has it, so the deepest place in any
tree that is read is that deep for the limit on nesting (`depth_isGreatest`).

Key definitions: `Expr.Path`, `Stmt.Path`, `Grammar.depth`, `Grammar.tower`.
Key theorems: `Grammar.Derives.path_le_add`, `Grammar.Derives.path_le`,
`nesting_bounds_paths`, `Grammar.fits_tower`, `depth_isGreatest`.
-/
import ScriptDebug.Proofs.Script.Writing

namespace ScriptDebug

/-! ### Paths -/

namespace Expr

/-- What a node adds to the depth of a path that meets it. -/
def weight : Expr → Nat
  | .unary _ _ | .binary _ _ _ | .assign _ _ => 1
  | _ => 0

/-- `e.Path d l`: a path leads from the root of the expression to one of its nodes and meets `d`
operators and assignments, those at its ends included. At `l` of them it goes on to the left of two
operands. -/
inductive Path : Expr → Nat → Nat → Prop
  | here (e : Expr) : Path e e.weight 0
  | operand {op e d l} : Path e d l → Path (.unary op e) (d + 1) l
  | left {op lhs rhs d l} : Path lhs d l → Path (.binary op lhs rhs) (d + 1) (l + 1)
  | right {op lhs rhs d l} : Path rhs d l → Path (.binary op lhs rhs) (d + 1) l
  | value {x e d l} : Path e d l → Path (.assign x e) (d + 1) l

end Expr

/-- `s.Path d l`: a path leads from the statement to a statement in it or to a node of an expression
in it. The blocks around its end and the operators and assignments that it meets are `d`, and at `l`
operators it goes on to the left. -/
inductive Stmt.Path : Stmt → Nat → Nat → Prop
  | here (s : Stmt) : Path s 0 0
  | initialiser {span how x e d l} : e.Path d l → Path (.declare span how x (some e)) d l
  | value {span e d l} : e.Path d l → Path (.expr span e) d l
  | inside {span body s d l} : s ∈ body → Path s d l → Path (.block span body) (d + 1) l

namespace Grammar

open ScriptDebug.Tree

/-! ### No expression is deeper -/

/-- The depth of the deepest unary expression of nesting `n`. -/
def unaryDepth : Nat → Nat
  | 0 | 1 => 0
  | n + 2 => 2 * (n + 1) * n + 1

theorem unaryDepth_add_three (n : Nat) :
    unaryDepth (n + 3) = unaryDepth (n + 2) + 4 * (n + 1) := by
  simp only [unaryDepth]
  ring

/-- One level further in stands what fits in parentheses, or an operator more. -/
theorem unaryDepth_succ (n : Nat) :
    unaryDepth n + 4 * (n - 1) ≤ unaryDepth (n + 1) ∧
      (0 < n → unaryDepth n + 1 ≤ unaryDepth (n + 1)) := by
  match n with
  | 0 => simp [unaryDepth]
  | 1 => simp [unaryDepth]
  | n + 2 =>
    rw [unaryDepth_add_three]
    refine ⟨Nat.le_refl _, fun _ => ?_⟩
    omega

theorem unaryDepth_mono {a b : Nat} (h : a ≤ b) : unaryDepth a ≤ unaryDepth b := by
  induction h with
  | refl => exact Nat.le_refl _
  | @step b _ ih =>
    have hb := (unaryDepth_succ b).1
    exact ih.trans ((Nat.le_add_right _ _).trans hb)

/-- No expression of a form and of nesting `n` is deeper than this: every level of operators can pile
up as many as there is budget, one operator less than that. -/
def depth : Form → Nat → Nat
  | .assignment, n | .primary, n => unaryDepth n + 4 * (n - 1)
  | .chain level k, n => unaryDepth n + (level.rank - 1) * (n - 1) + k
  | .operand level, n => unaryDepth n + (level.rank - 1) * (n - 1)
  | .unary, n => unaryDepth n

theorem depth_mono (f : Form) {a b : Nat} (h : a ≤ b) : depth f a ≤ depth f b := by
  have hu := unaryDepth_mono h
  have hm (c : Nat) : c * (a - 1) ≤ c * (b - 1) := Nat.mul_le_mul_left c (Nat.sub_le_sub_right h 1)
  cases f with
  | assignment | primary => exact Nat.add_le_add hu (hm 4)
  | chain level k => exact Nat.add_le_add_right (Nat.add_le_add hu (hm _)) k
  | operand level => exact Nat.add_le_add hu (hm _)
  | unary => exact hu

/-- The least nesting of a form: everything but a primary expression enters a unary level, and a
chain has its operators besides. -/
def Form.cost : Form → Nat
  | .chain _ k => k + 1
  | .primary => 0
  | _ => 1

theorem Derives.cost_le {f : Form} {n : Nat} {ls : List Lexeme} {e : Expr} (h : Derives f n ls e) :
    f.cost ≤ n := by
  induction h with
  | value _ ih | inner _ _ ih | primary _ ih | unary _ ih =>
    simp only [Form.cost] at *
    omega
  | first _ ih | tightest _ ih => exact ih
  | assign _ _ ih ih' | fold _ _ ih ih' =>
    simp only [Form.cost] at *
    omega
  | atom | parens => exact Nat.zero_le _

theorem Atom.path_eq_zero {t : Lexeme} {e : Expr} (h : Atom t e) {d l : Nat} (hd : e.Path d l) :
    d = 0 := by
  cases h <;> cases hd <;> rfl

/-- **No expression is deeper than its nesting allows.** -/
theorem Derives.path_le {f : Form} {n : Nat} {ls : List Lexeme} {e : Expr} (h : Derives f n ls e)
    {d l : Nat} (hd : e.Path d l) : d ≤ depth f n := by
  induction h generalizing d l with
  | @value k n ls e h ih =>
    have hk : k + 1 ≤ n := h.cost_le
    have hchain := ih hd
    simp only [depth, Level.rank] at hchain ⊢
    omega
  | @assign k n m ls us x e _ he _ ih =>
    have hm : 1 ≤ m := he.cost_le
    have hsucc := unaryDepth_succ m
    have hmono := depth_mono .assignment (Nat.le_max_right n (m + 1))
    have hdeep : depth .assignment m + 1 ≤ depth .assignment (m + 1) := by
      simp only [depth]
      omega
    cases hd with
    | here =>
      simp only [Expr.weight]
      omega
    | value hd =>
      have hvalue := ih hd
      omega
  | first _ ih => exact ih hd
  | @fold op k n m ls us lhs rhs _ hr ihl ihr =>
    -- the operands so far are one level deeper now, and the new one is two levels above its own depth
    have hm : 1 ≤ m := hr.cost_le
    have hle : m ≤ max n (k + 1 + m) := (Nat.le_add_left m (k + 1)).trans (Nat.le_max_right n _)
    have hleft := depth_mono (.chain op.level k) (Nat.le_max_left n (k + 1 + m))
    have hright := depth_mono (.operand op.level) hle
    simp only [depth] at hleft hright ihl ihr ⊢
    cases hd with
    | here =>
      simp only [Expr.weight]
      omega
    | left hd =>
      have hl := ihl hd
      omega
    | right hd =>
      have hr := ihr hd
      omega
  | @inner level tight k n ls e htight h ih =>
    have hk : k + 1 ≤ n := h.cost_le
    have hchain := ih hd
    cases level <;> cases htight <;> simp only [depth, Level.rank] at hchain ⊢ <;> omega
  | tightest _ ih =>
    have hunary := ih hd
    simp only [depth, Level.rank] at hunary ⊢
    omega
  | @unary op n ls e h ih =>
    have hn : 1 ≤ n := h.cost_le
    have hsucc := (unaryDepth_succ n).2 hn
    cases hd with
    | here =>
      simp only [Expr.weight, depth]
      omega
    | operand hd =>
      have hoperand := ih hd
      simp only [depth] at hoperand ⊢
      omega
  | @primary n ls e h ih =>
    have hsucc := (unaryDepth_succ n).1
    exact (ih hd).trans hsucc
  | atom ha =>
    rw [ha.path_eq_zero hd]
    exact Nat.zero_le _
  | parens _ ih => exact ih hd

/-! ### No statement is deeper -/

/-- Statements are no deeper than this, even where blocks hold no expression. -/
def bodyDepth (n : Nat) : Nat := max n (depth .assignment n)

theorem bodyDepth_succ (n : Nat) : bodyDepth n + 1 ≤ bodyDepth (n + 1) := by
  have hsucc := (unaryDepth_succ n).1
  by_cases hn : n = 0
  · subst hn
    decide
  · have hdepth : depth .assignment n + 1 ≤ depth .assignment (n + 1) := by
      simp only [depth]
      omega
    unfold bodyDepth
    omega

theorem bodyDepth_mono {a b : Nat} (h : a ≤ b) : bodyDepth a ≤ bodyDepth b := by
  have hdepth := depth_mono .assignment h
  unfold bodyDepth
  omega

/-- Each statement of a list has a derivation of its own. -/
theorem Statements.exists_of_mem {n : Nat} {ls : List Lexeme} {next : Option Lexeme} {s : Stmt}
    {body : List Stmt} (h : Statements n ls next body) (hs : s ∈ body) :
    ∃ m us after, m ≤ n ∧ Statement m us after s := by
  induction body generalizing n ls with
  | nil => cases hs
  | cons first body ih =>
    obtain _ | ⟨hfirst, hbody⟩ := h
    rcases List.mem_cons.1 hs with rfl | hs
    · exact ⟨_, _, _, Nat.le_max_left _ _, hfirst⟩
    · obtain ⟨m, us, after, hm, h⟩ := ih hbody hs
      exact ⟨m, us, after, hm.trans (Nat.le_max_right _ _), h⟩

/-- **No statement is deeper than its nesting allows.** -/
theorem Statement.path_le {n d l : Nat} {ls : List Lexeme} {next : Option Lexeme} {s : Stmt}
    (h : Statement n ls next s) (hd : s.Path d l) : d ≤ bodyDepth n := by
  induction hd generalizing n ls next with
  | here => exact Nat.zero_le _
  | initialiser hd =>
    cases h with
    | initialise he _ => exact (he.path_le hd).trans (Nat.le_max_right _ _)
  | value hd =>
    cases h with
    | expr he _ => exact (he.path_le hd).trans (Nat.le_max_right _ _)
  | inside hs _ ih =>
    cases h with
    | block hbody =>
      obtain ⟨m, us, after, hm, hs⟩ := hbody.exists_of_mem hs
      have hinner := (ih hs).trans (bodyDepth_mono hm)
      exact (Nat.succ_le_succ hinner).trans (bodyDepth_succ _)

/-! ### Turns to the left -/

/-- Where a path does not turn to the left, each operator on it has taken from the budget. -/
theorem Derives.path_le_add {f : Form} {n : Nat} {ls : List Lexeme} {e : Expr}
    (h : Derives f n ls e) {d l : Nat} (hd : e.Path d l) : d ≤ n + l := by
  induction h generalizing d l with
  | value _ ih | first _ ih | inner _ _ ih | tightest _ ih | parens _ ih => exact ih hd
  | primary _ ih =>
    have hinner := ih hd
    omega
  | atom ha =>
    rw [ha.path_eq_zero hd]
    exact Nat.zero_le _
  | unary _ ih =>
    cases hd with
    | here =>
      simp only [Expr.weight]
      omega
    | operand hd =>
      have hoperand := ih hd
      omega
  | assign _ _ _ ih =>
    cases hd with
    | here =>
      simp only [Expr.weight]
      omega
    | value hd =>
      have hvalue := ih hd
      omega
  | fold _ _ ihl ihr =>
    cases hd with
    | here =>
      simp only [Expr.weight]
      omega
    | left hd =>
      have hl := ihl hd
      omega
    | right hd =>
      have hr := ihr hd
      omega

theorem Statement.path_le_add {n d l : Nat} {ls : List Lexeme} {next : Option Lexeme} {s : Stmt}
    (h : Statement n ls next s) (hd : s.Path d l) : d ≤ n + l := by
  induction hd generalizing n ls next with
  | here => exact Nat.zero_le _
  | initialiser hd =>
    cases h with
    | initialise he _ => exact he.path_le_add hd
  | value hd =>
    cases h with
    | expr he _ => exact he.path_le_add hd
  | inside hs _ ih =>
    cases h with
    | block hbody =>
      obtain ⟨m, us, after, hm, hs⟩ := hbody.exists_of_mem hs
      have hinner := ih hs
      omega

/-! ### An expression that is that deep -/

/-- An operator applied `k` times, with `null` as its right operand. -/
def pile (op : BinaryOp) : Nat → Expr → Expr
  | 0, e => e
  | k + 1, e => .binary op (pile op k e) .null

/-- Piles of all levels, the tightest inside. -/
def layer (k : Nat) (e : Expr) : Expr := pile .eq k (pile .lt k (pile .add k (pile .mul k e)))

/-- An expression of nesting `n + 2` that is as deep as can be: inside each pair of parentheses
stands a layer as high as the budget that is left. -/
def tower : Nat → Expr
  | 0 => layer 1 (.unary .neg .null)
  | n + 1 => layer (n + 2) (tower n)

theorem path_pile (op : BinaryOp) {e : Expr} {d l : Nat} (h : e.Path d l) (k : Nat) :
    (pile op k e).Path (d + k) (l + k) := by
  induction k with
  | zero => exact h
  | succ k ih => exact .left ih

theorem path_layer {e : Expr} {d l : Nat} (h : e.Path d l) (k : Nat) :
    ∃ l', (layer k e).Path (d + 4 * k) l' := by
  have hpath := path_pile .eq (path_pile .lt (path_pile .add (path_pile .mul h k) k) k) k
  have hsum : d + 4 * k = d + k + k + k + k := by omega
  rw [hsum]
  exact ⟨_, hpath⟩

theorem path_tower (n : Nat) : ∃ l, (tower n).Path (depth .assignment (n + 2)) l := by
  induction n with
  | zero => exact path_layer (.here _) 1
  | succ n ih =>
    have hsucc : depth .assignment (n + 3) = depth .assignment (n + 2) + 4 * (n + 2) := by
      show unaryDepth (n + 3) + 4 * (n + 2) = unaryDepth (n + 2) + 4 * (n + 1) + 4 * (n + 2)
      rw [unaryDepth_add_three]
    obtain ⟨l, hpath⟩ := ih
    obtain ⟨l', hlayer⟩ := path_layer hpath (n + 2)
    show ∃ l, (layer (n + 2) (tower n)).Path (depth .assignment (n + 3)) l
    rw [hsucc]
    exact ⟨l', hlayer⟩

/-- The expression is of the form and within the budget, in lexemes that can be written. -/
def Fits (f : Form) (budget : Nat) (e : Expr) : Prop :=
  ∃ n ls, n ≤ budget ∧ Derives f n ls e ∧ ∀ l ∈ ls, l.Writable

/-- An operator can be applied as often as there is budget, up to one. -/
theorem fits_pile (op : BinaryOp) {budget k : Nat} {e : Expr}
    (h : Fits (.operand op.level) budget e) (hk : k < budget) :
    Fits (.chain op.level k) budget (pile op k e) := by
  have hnull : Derives (.operand op.level) 1 [.kwNull] .null :=
    (Derives.primary (.atom .null)).operand_of_unary op.level
  induction k with
  | zero =>
    obtain ⟨n, ls, hn, he, hls⟩ := h
    exact ⟨n, ls, hn, .first he, hls⟩
  | succ k ih =>
    obtain ⟨n, ls, hn, he, hls⟩ := ih (by omega)
    have hfold := Derives.fold he hnull
    have hsign : op.sign.Writable := by cases op <;> trivial
    have hright : ∀ l ∈ op.sign :: [Lexeme.kwNull], l.Writable :=
      List.forall_mem_cons.2 ⟨hsign, List.forall_mem_singleton.2 trivial⟩
    exact ⟨_, _, by omega, hfold, List.forall_mem_append.2 ⟨hls, hright⟩⟩

theorem Fits.inner {level tight : Level} {budget k : Nat} {e : Expr}
    (htight : level.tighter? = some tight) (h : Fits (.chain tight k) budget e) :
    Fits (.operand level) budget e := by
  obtain ⟨n, ls, hn, he, hls⟩ := h
  exact ⟨n, ls, hn, .inner htight he, hls⟩

/-- All levels can be piled up with one and the same budget. -/
theorem fits_layer {budget k : Nat} {e : Expr} (h : Fits .unary budget e) (hk : k < budget) :
    Fits .assignment budget (layer k e) := by
  have hmul : Fits (.operand .multiplicative) budget e := by
    obtain ⟨n, ls, hn, he, hls⟩ := h
    exact ⟨n, ls, hn, .tightest he, hls⟩
  have hadd : Fits (.operand .additive) budget (pile .mul k e) := .inner rfl (fits_pile .mul hmul hk)
  have hlt : Fits (.operand .comparison) budget _ := .inner rfl (fits_pile .add hadd hk)
  have heq : Fits (.operand .equality) budget _ := .inner rfl (fits_pile .lt hlt hk)
  obtain ⟨n, ls, hn, he, hls⟩ := fits_pile .eq heq hk
  exact ⟨n, ls, hn, .value he, hls⟩

theorem fits_tower (n : Nat) : Fits .assignment (n + 2) (tower n) := by
  induction n with
  | zero =>
    have hneg : Derives .unary 2 (UnaryOp.neg.sign :: [.kwNull]) (.unary .neg .null) :=
      .unary (.primary (.atom .null))
    have hls : ∀ l ∈ UnaryOp.neg.sign :: [.kwNull], l.Writable := by
      simp [UnaryOp.sign, Lexeme.Writable]
    exact fits_layer ⟨2, _, Nat.le_refl _, hneg, hls⟩ (by omega)
  | succ n ih =>
    obtain ⟨m, ls, hm, he, hls⟩ := ih
    have hparens := Derives.primary (Derives.parens he)
    have hclosed : ∀ l ∈ ls ++ [Lexeme.parenClose], l.Writable :=
      List.forall_mem_append.2 ⟨hls, List.forall_mem_singleton.2 trivial⟩
    have hfits : Fits .unary (n + 3) (tower n) :=
      ⟨_, _, by omega, hparens, List.forall_mem_cons.2 ⟨trivial, hclosed⟩⟩
    exact fits_layer hfits (by omega)

end Grammar

/-! ### Sources -/

/-- Each statement of a tree that is read is derived within the limit. -/
theorem Grammar.exists_statement_of_ofSource {source : Source} {body : List Stmt}
    (h : Tree.ofSource source = .ok body) {s : Stmt} (hs : s ∈ body) :
    ∃ n ls next, n ≤ Tree.maxNesting ∧ Statement n ls next s := by
  obtain ⟨ts, n, hn, hscript⟩ := exists_script_of_ofSource h
  obtain ⟨m, us, after, hm, hstatement⟩ := hscript.exists_of_mem hs
  exact ⟨m, us, after, hm.trans hn, hstatement⟩

/-- **What the limit on nesting bounds.** On a path in a tree that is read the blocks, operators and
assignments are at most as many as the limit and the turns to the left together, so the limit bounds
them where no operator is met on the way to its left operand. In any case they are at most
`2 * n * (n - 1) + 1`, where `n` is the limit. -/
theorem nesting_bounds_paths {source : Source} {body : List Stmt}
    (h : Tree.ofSource source = .ok body) {s : Stmt} (hs : s ∈ body) {d l : Nat}
    (hd : s.Path d l) :
    d ≤ Tree.maxNesting + l ∧ d ≤ 2 * Tree.maxNesting * (Tree.maxNesting - 1) + 1 := by
  obtain ⟨n, ls, next, hn, hstatement⟩ := Grammar.exists_statement_of_ofSource h hs
  have hturns : d ≤ n + l := hstatement.path_le_add hd
  have hdepth : d ≤ Grammar.bodyDepth n := hstatement.path_le hd
  constructor
  · omega
  · exact hdepth.trans (Grammar.bodyDepth_mono hn)

set_option maxRecDepth 100000 in
/-- A path into a block and to a sign, which stands left of a sum. -/
theorem sign_in_block_bounded :
    let s : Stmt := .block ⟨0, 11⟩ [.expr ⟨2, 9⟩
      (.binary .add (.unary .neg (.name "a")) (.name "b"))]
    Tree.ofSource (Source.ofText "s" "{ -a + b; }") = .ok [s] ∧ s.Path 3 1 ∧
      3 ≤ Tree.maxNesting + 1 ∧ 3 ≤ 2 * Tree.maxNesting * (Tree.maxNesting - 1) + 1 := by
  intro s
  have hbody : Tree.ofSource (Source.ofText "s" "{ -a + b; }") = .ok [s] := by cbv
  have hsign : (Expr.unary .neg (.name "a")).Path 1 0 := .here _
  have hpath : s.Path 3 1 := .inside (List.mem_singleton_self _) (.value (.left hsign))
  exact ⟨hbody, hpath, nesting_bounds_paths hbody (List.mem_singleton_self s) hpath⟩

/-- **The deepest place.** Paths in the trees of sources are at most `2 * n * (n - 1) + 1` deep, where
`n` is the limit on nesting, and one of them is that deep. -/
theorem depth_isGreatest :
    IsGreatest {d | ∃ source body, Tree.ofSource source = .ok body ∧ ∃ s ∈ body, ∃ l, s.Path d l}
      (2 * Tree.maxNesting * (Tree.maxNesting - 1) + 1) := by
  constructor
  · obtain ⟨n, ls, hn, he, hls⟩ := Grammar.fits_tower 254
    obtain ⟨span, hsource⟩ := Grammar.ofSource_write .spaced "main.js" he hn hls
    obtain ⟨l, hpath⟩ := Grammar.path_tower 254
    exact ⟨_, _, hsource, _, List.mem_singleton_self _, l, .value hpath⟩
  · rintro d ⟨source, body, hsource, s, hs, l, hd⟩
    obtain ⟨n, ls, next, hn, hstatement⟩ := Grammar.exists_statement_of_ofSource hsource hs
    exact (hstatement.path_le hd).trans (Grammar.bodyDepth_mono hn)

/-! ### A short source that is deeper than the limit -/

/-- `k` signs before `null`. -/
def negations : Nat → Expr
  | 0 => .null
  | k + 1 => .unary .neg (negations k)

theorem path_negations (k : Nat) : (negations k).Path k 0 := by
  induction k with
  | zero => exact .here _
  | succ k ih => exact .operand ih

theorem derives_negations (k : Nat) :
    Grammar.Derives .unary (k + 1) (List.replicate k Lexeme.minus ++ [Lexeme.kwNull])
      (negations k) := by
  induction k with
  | zero => exact .primary (.atom .null)
  | succ k ih => exact @Grammar.Derives.unary .neg _ _ _ ih

/-- What is written to add `null` twice. -/
def twoSums : List Lexeme := [.plus, .kwNull, .plus, .kwNull]

/-- Two sums with `null`, and what was derived as a unary expression on the left. -/
theorem derives_twoSums {n : Nat} {ls : List Lexeme} {e : Expr}
    (h : Grammar.Derives .unary n ls e) (hn : 3 ≤ n) :
    Grammar.Derives .assignment n (ls ++ twoSums)
      (.binary .add (.binary .add e .null) .null) := by
  have hnull : Grammar.Derives (.operand .additive) 1 [.kwNull] .null :=
    (Grammar.Derives.primary (.atom .null)).operand_of_unary .additive
  have hfirst := Grammar.Derives.first (h.operand_of_unary .additive)
  have hinner := @Grammar.Derives.fold .add _ _ _ _ _ _ _ hfirst hnull
  have hsum := @Grammar.Derives.fold .add _ _ _ _ _ _ _ hinner hnull
  have hmax : max (max n (0 + 1 + 1)) (0 + 1 + 1 + 1) = n := by omega
  rw [hmax, List.append_assoc] at hsum
  exact .value (.first (hsum.operand_of_chain (by decide)))

set_option maxRecDepth 10000 in
/-- The signs give back what they took before the sums take it again. -/
theorem negated_sum_deeper :
    ∃ body, Tree.ofSource (Source.ofText "main.js" (String.ofList
        ((List.replicate 255 ['-', ' ']).flatten ++ "null + null + null".toList))) = .ok body ∧
      ∃ s ∈ body, s.Path (Tree.maxNesting + 1) 2 := by
  have hderives := derives_twoSums (derives_negations 255) (by decide)
  have hls : ∀ l ∈ List.replicate 255 Lexeme.minus ++ [Lexeme.kwNull] ++ twoSums, l.Writable := by
    simp [twoSums, Lexeme.Writable]
  obtain ⟨span, hsource⟩ := Grammar.ofSource_write .spaced "main.js" hderives (by decide) hls
  have htext : Style.spaced.write 0 (List.replicate 255 Lexeme.minus ++ [Lexeme.kwNull] ++
      twoSums) = (List.replicate 255 ['-', ' ']).flatten ++ "null + null + null".toList := by
    decide +kernel
  rw [htext] at hsource
  have hpath : (Expr.binary .add (.binary .add (negations 255) .null) .null).Path 257 2 :=
    .left (.left (path_negations 255))
  exact ⟨_, hsource, _, List.mem_singleton_self _, .value hpath⟩

end ScriptDebug
