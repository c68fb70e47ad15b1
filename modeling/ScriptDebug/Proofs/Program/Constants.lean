/-
# The pool of constants

The literals of a tree are placed in the pool one after another as they are
evaluated, and the loads in the code have the indices that they were given
(`bodyPiece_places`). The pool is searched by comparison, which does not tell
the two zeros apart and finds no `nan`; but no literal is a negative zero or
`nan`, so among literals comparison is equality bit for bit
(`Value.Proper.same_iff`). So the pool is the list of literals, each where it
comes first, and each load stands for its own literal (`constants_are_literals`).

Key definitions: `bodyLiterals`, `placeAll`, `Value.Proper`, `Program.loads`, `Program.Pools`.
Key theorems: `bodyPiece_places`, `constants_placeAll`, `loads_placeAll`, `constants_are_literals`.
-/
import ScriptDebug.Proofs.Lists
import ScriptDebug.Proofs.Number.Defined
import ScriptDebug.Proofs.Program.Code

namespace ScriptDebug

deriving instance DecidableEq for Value

/-! ### Literals and loads -/

/-- The number and string literals of an expression in the order of their evaluation. -/
def Expr.literals : Expr → List Value
  | .number x => [.number x]
  | .string s => [.string s]
  | .bool _ | .null | .undefined | .self | .name _ => []
  | .unary _ e | .assign _ e => e.literals
  | .binary _ l r => l.literals ++ r.literals

mutual

def Stmt.literals : Stmt → List Value
  | .empty _ | .pause _ => []
  | .declare _ _ _ init => (init.getD .undefined).literals
  | .expr _ e => e.literals
  | .block _ body => bodyLiterals body

/-- The number and string literals of statements in the order of their evaluation. -/
def bodyLiterals : List Stmt → List Value
  | [] => []
  | s :: body => s.literals ++ bodyLiterals body

end

/-- The index of the constant that an instruction loads, if it loads one. -/
def Instruction.constant? : Instruction → Option Nat
  | .loadConst i => some i
  | _ => none

/-- The indices of the constants that code loads, in its order. -/
def loads (code : List Instruction) : List Nat := code.filterMap Instruction.constant?

theorem loads_append (code code' : List Instruction) :
    loads (code ++ code') = loads code ++ loads code' :=
  List.filterMap_append

/-- The indices of values that are placed one after another, and the constants with them. -/
def placeAll : List Value → Array Value → List Nat × Array Value
  | [], pool => ([], pool)
  | v :: vs, pool =>
    ((place v pool).1 :: (placeAll vs (place v pool).2).1, (placeAll vs (place v pool).2).2)

theorem placeAll_append (vs ws : List Value) (pool : Array Value) :
    placeAll (vs ++ ws) pool =
      ((placeAll vs pool).1 ++ (placeAll ws (placeAll vs pool).2).1,
        (placeAll ws (placeAll vs pool).2).2) := by
  induction vs generalizing pool with
  | nil => rfl
  | cons v vs ih => simp only [List.cons_append, placeAll, ih]

/-! ### Code places its literals -/

variable (g : Bool)

/-- The code loads literals that were placed one after another. -/
def Places (vs : List Value) (pool : Array Value) (code : List Instruction) (pool' : Array Value) :
    Prop :=
  (loads code, pool') = placeAll vs pool

namespace Places

theorem append {vs ws : List Value} {pool pool' pool'' : Array Value}
    {code code' : List Instruction} (h : Places vs pool code pool')
    (h' : Places ws pool' code' pool'') : Places (vs ++ ws) pool (code ++ code') pool'' := by
  unfold Places at *
  rw [placeAll_append, ← h, loads_append]
  simp only [← h']

/-- Instructions that load no constant place nothing. -/
theorem append_quiet {vs : List Value} {pool pool' : Array Value} {code code' : List Instruction}
    (h : Places vs pool code pool') (h' : loads code' = []) :
    Places vs pool (code ++ code') pool' := by
  unfold Places
  rw [loads_append, h', List.append_nil]
  exact h

end Places

theorem Expr.places_code (e : Expr) (pool : Array Value) :
    Places e.literals pool (e.code g pool).1 (e.code g pool).2 := by
  induction e generalizing pool with
  | number | string | bool | null | undefined | name => rfl
  | self => cases g <;> rfl
  | unary op e ih =>
    rw [code_unary]
    exact (ih pool).append_quiet (by cases op <;> rfl)
  | binary op l r ihl ihr =>
    rw [code_binary]
    exact ((ihl pool).append (ihr _)).append_quiet rfl
  | assign x e ih =>
    rw [code_assign]
    exact (ih pool).append_quiet rfl

mutual

theorem Stmt.places_piece (pc : Nat) (pool : Array Value) :
    ∀ s : Stmt, Places s.literals pool (s.piece g pc pool).code (s.piece g pc pool).pool
  | .empty _ | .pause _ => rfl
  | .declare _ how _ _ => by
    rw [Stmt.piece_declare]
    exact (Expr.places_code g _ pool).append_quiet (by cases how <;> rfl)
  | .expr _ e => by
    rw [Stmt.piece_expr]
    exact (e.places_code g pool).append_quiet rfl
  | .block span body => by
    rw [Stmt.code_block, Stmt.pool_block]
    exact (bodyPiece_places (pc + 1) pool body).append_quiet rfl

/-- **The literals of statements are placed one after another.** -/
theorem bodyPiece_places (pc : Nat) (pool : Array Value) :
    ∀ body : List Stmt,
      Places (bodyLiterals body) pool (bodyPiece g pc pool body).code
        (bodyPiece g pc pool body).pool
  | [] => rfl
  | s :: body => by
    rw [(bodyPiece_cons g pc pool s body).1, (bodyPiece_cons g pc pool s body).2]
    exact (s.places_piece pc pool).append (bodyPiece_places _ _ body)

end

/-! ### Literals that equal themselves -/

/-- A literal that comparison finds again: a string, or a number that is not `nan`. -/
structure Value.Proper (v : Value) : Prop where
  literal : v.IsLiteral
  same_self : v.same v = true

theorem Value.Proper.number {x : Float} (h : Number.IsWritten x) : (Value.number x).Proper where
  literal := h.unsigned
  same_self := by
    obtain ⟨m, e, rfl⟩ := h
    exact Float.beq_self_iff.2 (Number.nearest_ne_nan m e)

theorem Value.Proper.string (s : String) : (Value.string s).Proper :=
  ⟨trivial, beq_self_eq_true s⟩

/-- Comparison of literals is equality. -/
theorem Value.Proper.same_iff {v w : Value} (hv : v.Proper) (hw : w.Proper) :
    v.same w = true ↔ v = w := by
  constructor
  · exact hv.literal.eq_of_same hw.literal
  · rintro rfl
    exact hv.same_self

theorem Expr.proper_literals {V : Vocabulary} (hV : ∀ x, V.number x → (Value.number x).Proper)
    (e : Expr) (he : e.Within V) : ∀ v ∈ e.literals, v.Proper := by
  induction e with
  | number x => exact List.forall_mem_singleton.2 (hV x he)
  | string s => exact List.forall_mem_singleton.2 (.string s)
  | bool | null | undefined | self | name => exact fun _ h => nomatch h
  | unary op e ih => exact ih he
  | binary op l r ihl ihr => exact List.forall_mem_append.2 ⟨ihl he.1, ihr he.2⟩
  | assign x e ih => exact ih he.2

mutual

theorem Stmt.proper_literals {V : Vocabulary} (hV : ∀ x, V.number x → (Value.number x).Proper) :
    ∀ s : Stmt, s.Within V → ∀ v ∈ s.literals, v.Proper
  | .empty _, _ | .pause _, _ => fun _ h => nomatch h
  | .declare _ _ _ init, hs => (init.getD .undefined).proper_literals hV hs.2
  | .expr _ e, hs => e.proper_literals hV hs
  | .block _ body, hs => proper_bodyLiterals hV body hs

theorem proper_bodyLiterals {V : Vocabulary} (hV : ∀ x, V.number x → (Value.number x).Proper) :
    ∀ body : List Stmt, BodyWithin V body → ∀ v ∈ bodyLiterals body, v.Proper
  | [], _ => fun _ h => nomatch h
  | s :: body, hb =>
    List.forall_mem_append.2 ⟨s.proper_literals hV hb.1, proper_bodyLiterals hV body hb.2⟩

end

/-- The literals of a source are strings and numbers that equal themselves. -/
theorem Tree.ofSource_proper {source : Source} {body : List Stmt}
    (h : Tree.ofSource source = .ok body) : ∀ v ∈ bodyLiterals body, v.Proper :=
  proper_bodyLiterals (fun _ hx => hx) body
    (ofSource_within_all (fun _ => Value.Proper.number) h)

/-! ### What placing literals leaves -/

/-- A literal is appended to a pool of literals exactly if it is not there. -/
theorem place_literal {v : Value} {pool : Array Value} (hv : v.Proper)
    (hp : ∀ w ∈ pool, w.IsLiteral) :
    (place v pool).2.toList = if v ∈ pool then pool.toList else pool.toList ++ [v] := by
  unfold place
  split
  · rename_i i hi
    obtain ⟨hlt, hs, -⟩ := Array.findIdx?_eq_some_iff_getElem.1 hi
    have hmem := Array.getElem_mem hlt
    have hfound : pool[i] = v := (hp _ hmem).eq_of_same hv.literal hs
    rw [if_pos (hfound ▸ hmem)]
  · rename_i hnone
    have hmem : v ∉ pool := fun hmem =>
      absurd hv.same_self (by simpa using Array.findIdx?_eq_none_iff.1 hnone v hmem)
    rw [if_neg hmem, Array.toList_push]

theorem constants_placeAll {vs : List Value} (h : ∀ v ∈ vs, v.Proper) :
    (placeAll vs #[]).2.toList = vs.eraseDups := by
  induction vs using List.reverseRecOn with
  | nil => rfl
  | append_singleton vs v ih =>
    obtain ⟨hvs, hv⟩ := List.forall_mem_append.1 h
    have hpool := ih hvs
    have hmem : ∀ w, w ∈ (placeAll vs #[]).2 ↔ w ∈ vs := fun w => by
      rw [← Array.mem_toList_iff, hpool, List.mem_eraseDups]
    rw [placeAll_append, eraseDups_concat]
    show (place v (placeAll vs #[]).2).2.toList = _
    rw [place_literal (List.forall_mem_singleton.1 hv) fun w hw => (hvs w ((hmem w).1 hw)).literal,
      hpool]
    exact if_congr (hmem v) rfl rfl

theorem extends_placeAll (vs : List Value) (pool : Array Value) :
    Extends pool (placeAll vs pool).2 := by
  induction vs generalizing pool with
  | nil => exact .refl pool
  | cons v vs ih => exact (extends_place v pool).trans (ih _)

/-- Each literal stands where it was placed. -/
theorem loads_placeAll {vs : List Value} {pool : Array Value} (h : ∀ v ∈ vs, v.IsLiteral)
    (hp : ∀ w ∈ pool, w.IsLiteral) :
    (placeAll vs pool).1.map ((placeAll vs pool).2[·]?) = vs.map some := by
  induction vs generalizing pool with
  | nil => rfl
  | cons v vs ih =>
    obtain ⟨hv, hvs⟩ := List.forall_mem_cons.1 h
    obtain ⟨hplace, hpool⟩ := place_spec hv hp
    rw [placeAll, List.map_cons, List.map_cons, ih hvs hpool,
      extends_placeAll vs _ _ _ hplace]

/-! ### The pool of a program -/

theorem bodyLiterals_unit (mode : Mode) (body : List Stmt) :
    bodyLiterals (mode.unit body) = bodyLiterals body := by
  unfold Mode.unit
  split
  · rw [bodyLiterals, bodyLiterals, Stmt.literals, List.append_nil]
  · rfl

namespace Program

/-- The indices of the constants that a program loads, in the order of its code. -/
def loads (p : Program) : List Nat := ScriptDebug.loads p.code.toList

/-- The constants of a program are the literals `literals`, each where it comes first and only
there, and its loads stand for them one after another. -/
structure Pools (p : Program) (literals : List Value) : Prop where
  constants : p.constants.toList = literals.eraseDups
  nodup : p.constants.toList.Nodup
  inRange : ∀ i ∈ p.loads, i < p.constants.size
  loads : p.loads.map (p.constants[·]?) = literals.map some
  /-- Two loads share a constant exactly if their literals are the same. -/
  slots : ∀ j k : Nat, p.loads[j]? = p.loads[k]? ↔ literals[j]? = literals[k]?
  /-- The language tells literals apart exactly if they are not the same. -/
  same : ∀ v ∈ literals, ∀ w ∈ literals, (v.same w = true ↔ v = w)

/-- The program of statements places their literals one after another. -/
theorem ofTree_places (source : Source) (mode : Mode) (body : List Stmt) :
    ((ofTree source mode body).loads, (ofTree source mode body).constants) =
      placeAll (bodyLiterals body) #[] := by
  rw [loads, ofTree_code, ofTree_constants, ← bodyLiterals_unit mode body]
  exact (bodyPiece_places mode.globalSelf 0 #[] (mode.unit body)).append_quiet rfl

section
variable {p : Program} {literals : List Value}

/-- A load stands for the literal at its place. -/
theorem getElem?_loads (h : p.loads.map (p.constants[·]?) = literals.map some) (j : Nat) :
    (p.loads[j]?).map (p.constants[·]?) = (literals[j]?).map some := by
  rw [← List.getElem?_map, h, List.getElem?_map]

theorem loads_lt (h : p.loads.map (p.constants[·]?) = literals.map some) :
    ∀ i ∈ p.loads, i < p.constants.size := by
  intro i hi
  have hmem : p.constants[i]? ∈ literals.map some := h ▸ List.mem_map_of_mem hi
  obtain ⟨v, -, hv⟩ := List.mem_map.1 hmem
  exact (Array.getElem?_eq_some_iff.1 hv.symm).1

theorem slots_iff (hn : p.constants.toList.Nodup)
    (h : p.loads.map (p.constants[·]?) = literals.map some) (j k : Nat) :
    p.loads[j]? = p.loads[k]? ↔ literals[j]? = literals[k]? := by
  have hj := getElem?_loads h j
  have hk := getElem?_loads h k
  constructor
  · intro heq
    rw [heq, hk] at hj
    exact (Option.map_injective (Option.some_injective _) hj).symm
  · intro heq
    rw [heq, ← hk] at hj
    cases hlj : p.loads[j]? with
    | none =>
      rw [hlj, Option.map_none, eq_comm, Option.map_eq_none_iff] at hj
      exact hj.symm
    | some a =>
      cases hlk : p.loads[k]? with
      | none =>
        rw [hlj, hlk] at hj
        cases hj
      | some b =>
        -- constants stand once each, so equal ones have one index
        rw [hlj, hlk, Option.map_some, Option.map_some, Option.some_inj] at hj
        have ha := loads_lt h a (List.mem_of_getElem? hlj)
        rw [← Array.getElem?_toList, ← Array.getElem?_toList] at hj
        exact congrArg some ((List.getElem?_inj ha hn).1 hj)

end

/-- Literals that are placed one after another are pooled. -/
theorem pools_of_places {p : Program} {literals : List Value} (hl : ∀ v ∈ literals, v.Proper)
    (h : (p.loads, p.constants) = placeAll literals #[]) : p.Pools literals := by
  obtain ⟨hloads, hpool⟩ := Prod.mk.inj h
  have hconstants : p.constants.toList = literals.eraseDups :=
    hpool ▸ constants_placeAll hl
  have hnodup : p.constants.toList.Nodup := hconstants ▸ nodup_eraseDups literals
  have hstand : p.loads.map (p.constants[·]?) = literals.map some := by
    rw [hloads, hpool]
    exact loads_placeAll (fun v hv => (hl v hv).literal) (by simp)
  exact {
    constants := hconstants
    nodup := hnodup
    inRange := loads_lt hstand
    loads := hstand
    slots := slots_iff hnodup hstand
    same := fun v hv w hw => (hl v hv).same_iff (hl w hw) }

end Program

/-- **The constants of a compiled program are its literals.** Whatever the source and the mode, the
pool has each number and string of the tree once, in the order in which the code comes to them, and
the loads of the code read the literals of the tree in the order of their evaluation. -/
theorem constants_are_literals {source : Source} {mode : Mode} {p : Program}
    (h : Program.ofSource source mode = .ok p) :
    ∃ body, Tree.ofSource source = .ok body ∧ p.Pools (bodyLiterals body) := by
  obtain ⟨body, hbody, rfl⟩ := Program.ofSource_eq_ok.1 h
  exact ⟨body, hbody,
    Program.pools_of_places (Tree.ofSource_proper hbody) (Program.ofTree_places source mode body)⟩

set_option maxRecDepth 100000 in
/-- A fragment that has a string and a number twice, the number in two spellings. -/
theorem repeated_literals_pooled :
    let source := Source.ofText "s" "'a' + 0; \x7b 0.0 + 'a' \x7d"
    ∃ p, Program.ofSource source ⟨true, true⟩ = .ok p ∧ p.loads = [0, 1, 1, 0] ∧
      p.constants.size = 2 ∧
      ∃ body, Tree.ofSource source = .ok body ∧ p.Pools (bodyLiterals body) := by
  intro source
  have hbody : Tree.ofSource source =
      .ok [.expr ⟨0, 8⟩ (.binary .add (.string "a") (.number 0)),
        .block ⟨9, 22⟩ [.expr ⟨11, 22⟩ (.binary .add (.number 0) (.string "a"))]] := by cbv
  have hp : Program.ofSource source ⟨true, true⟩ = .ok (Program.ofTree source ⟨true, true⟩ _) :=
    congrArg (Except.map _) hbody
  exact ⟨_, hp, by decide +kernel, by decide +kernel, constants_are_literals hp⟩
end ScriptDebug
