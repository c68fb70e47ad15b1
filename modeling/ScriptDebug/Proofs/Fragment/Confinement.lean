/-
# What a fragment can change

A fragment declares its own names in new scopes. So of the scopes that were there
before it changes values only, and only those of names that it assigns: no name
comes to them and none goes. Of the properties of the global object it changes, or
adds, only those that it assigns or declares by `var`. This holds at the end of a
fragment however it ends (`evaluation_confined`).

The induction is on the tree. It carries that the innermost scope is a new one,
since this is where a declaration goes; an assignment may go to any scope, but
only to one that binds the name already.

Key definitions: `bodyTargets`, `bodyProperties`, `Heap.Confined`, `HeapEval.Confines`.
Key theorems: `Expr.confines`, `bodyEval_confines`, `evaluation_confined`.
-/
import ScriptDebug.Proofs.Fragment.Evaluation

namespace ScriptDebug

/-! ### The names in a tree -/

/-- The names that an expression assigns. -/
def Expr.targets : Expr → List String
  | .unary _ e => e.targets
  | .binary _ l r => l.targets ++ r.targets
  | .assign x e => x :: e.targets
  | _ => []

mutual

/-- The names that are assigned in a statement. -/
def Stmt.targets : Stmt → List String
  | .empty _ | .pause _ => []
  | .declare _ _ _ init => (init.getD .undefined).targets
  | .expr _ e => e.targets
  | .block _ body => bodyTargets body

def bodyTargets : List Stmt → List String
  | [] => []
  | s :: body => s.targets ++ bodyTargets body

end

mutual

/-- The names that a statement declares as properties of the global object. -/
def Stmt.properties : Stmt → List String
  | .declare _ .globalProperty x _ => [x]
  | .block _ body => bodyProperties body
  | _ => []

def bodyProperties : List Stmt → List String
  | [] => []
  | s :: body => s.properties ++ bodyProperties body

end

/-- A name is assigned somewhere in the fragment that a text is. -/
def IsTarget (text x : String) : Prop :=
  ∃ body, Tree.ofSource (Source.ofText fragmentName text) = .ok body ∧ x ∈ bodyTargets body

/-- A name is declared by `var` somewhere in the fragment that a text is. -/
def IsProperty (text x : String) : Prop :=
  ∃ body, Tree.ofSource (Source.ofText fragmentName text) = .ok body ∧ x ∈ bodyProperties body

/-! ### Changes to a heap -/

namespace Heap

/-- Of the scopes below `n` only values of the names in `targets` differ, and of the globals only
those of names in one of the two lists. -/
structure Confined (n : ScopeId) (targets properties : List String) (h h' : Heap) : Prop where
  next : h.scopes.next ≤ h'.scopes.next
  names : ∀ i < n, (h'.scopes.read i).names = (h.scopes.read i).names
  values : ∀ i < n, ∀ x ∉ targets, (h'.scopes.read i).get? x = (h.scopes.read i).get? x
  globals : ∀ x ∉ targets, x ∉ properties → h'.globals.get? x = h.globals.get? x

namespace Confined

variable {n : ScopeId} {targets properties : List String} {h h' h'' : Heap}

theorem of_eq (hs : h'.scopes = h.scopes) (hg : h'.globals = h.globals) :
    h.Confined n targets properties h' where
  next := Nat.le_of_eq (congrArg Scopes.next hs.symm)
  names i _ := by rw [hs]
  values i _ x _ := by rw [hs]
  globals x _ _ := by rw [hg]

theorem trans (a : h.Confined n targets properties h') (b : h'.Confined n targets properties h'') :
    h.Confined n targets properties h'' where
  next := Nat.le_trans a.next b.next
  names i hi := (b.names i hi).trans (a.names i hi)
  values i hi x hx := (b.values i hi x hx).trans (a.values i hi x hx)
  globals x hx hp := (b.globals x hx hp).trans (a.globals x hx hp)

/-- A new scope changes no other. -/
theorem grow (h : Heap) : h.Confined n targets properties h.grow where
  next := by
    rw [Heap.grow, Scopes.next_grow]
    exact Nat.le_succ _
  names i _ := by rw [Heap.grow, Scopes.read_grow]
  values i _ x _ := by rw [Heap.grow, Scopes.read_grow]
  globals x _ _ := rfl

/-- What is declared goes into a new scope. -/
theorem define {i : ScopeId} (hi : n ≤ i) (h : Heap) (x : String) (v : Value) :
    h.Confined n targets properties (h.define i x v) := by
  have hread : ∀ j < n, (h.define i x v).scopes.read j = h.scopes.read j := by
    intro j hj
    have hne : i ≠ j := Nat.ne_of_gt (Nat.lt_of_lt_of_le hj hi)
    exact Scopes.read_define_ne hne h.scopes x v
  constructor
  · exact Nat.le_of_eq (Scopes.next_define _ _ _ _).symm
  · intro j hj
    rw [hread j hj]
  · intro j hj y _
    rw [hread j hj]
  · intro y _ _
    rfl

theorem setGlobal {x : String} (hx : x ∈ targets ∨ x ∈ properties) (h : Heap) (v : Value) :
    h.Confined n targets properties (h.setGlobal x v) := by
  constructor
  · exact Nat.le_refl _
  · intro j _
    rfl
  · intro j _ y _
    rfl
  · intro y hy hp
    have hne : y ≠ x := by
      rintro rfl
      rcases hx with hx | hx
      · exact hy hx
      · exact hp hx
    rw [Heap.setGlobal, Bindings.get?_put, if_neg hne]

/-- To overwrite a name that is bound brings no name. -/
theorem overwrite {x : String} (hx : x ∈ targets) {i : ScopeId}
    (hb : (h.scopes.read i).binds x = true) (v : Value) :
    h.Confined n targets properties (h.define i x v) := by
  have hself : (h.define i x v).scopes.read i = (h.scopes.read i).put x v :=
    Scopes.read_define_self (Scopes.lt_next_of_binds hb) x v
  constructor
  · exact Nat.le_of_eq (Scopes.next_define _ _ _ _).symm
  · intro j _
    by_cases hij : i = j
    · subst hij
      rw [hself, Bindings.names_put, if_pos ((Bindings.binds_iff _ x).1 hb)]
    · rw [Heap.define, Scopes.read_define_ne hij]
  · intro j _ y hy
    by_cases hij : i = j
    · subst hij
      have hne : y ≠ x := by
        rintro rfl
        exact hy hx
      rw [hself, Bindings.get?_put, if_neg hne]
    · rw [Heap.define, Scopes.read_define_ne hij]
  · intro y _ _
    rfl

/-- An assignment goes to a scope that binds the name already, or to the globals. -/
theorem assign {x : String} (hx : x ∈ targets) (h : Heap) (c : Chain) (v : Value) :
    h.Confined n targets properties (h.assign c x v) := by
  unfold Heap.assign
  cases ho : h.scopes.owner? c x with
  | some i =>
    have hfind : (c.ids.find? fun j => (h.scopes.read j).binds x) = some i := ho
    have hb := List.find?_some hfind
    exact overwrite hx hb v
  | none => exact setGlobal (Or.inl hx) h v

end Confined
end Heap

/-! ### Evaluations -/

namespace HeapEval

/-- The heap at the end of an evaluation, whether it is done or stopped by a fault. -/
def finish {α : Type} (e : HeapEval α) (h : Heap) : Heap :=
  match e h with
  | .ok _ h' | .error _ h' => h'

/-- The evaluation keeps its changes within bounds, where the scopes from `n` on are new. -/
def Confines {α : Type} (n : ScopeId) (targets properties : List String) (e : HeapEval α) : Prop :=
  ∀ h : Heap, n ≤ h.scopes.next → h.Confined n targets properties (e.finish h)

variable {α β : Type} {n : ScopeId} {targets properties : List String}

theorem Confines.pure (a : α) : Confines n targets properties (pure a : HeapEval α) :=
  fun _ _ => .of_eq rfl rfl

theorem Confines.bind {e : HeapEval α} {f : α → HeapEval β} (he : Confines n targets properties e)
    (hf : ∀ a, Confines n targets properties (f a)) :
    Confines n targets properties (e >>= f) := by
  intro h hn
  have hfirst := he h hn
  have hbind : finish (e >>= f) h = finish (EStateM.bind e f) h := rfl
  rw [hbind]
  unfold finish at hfirst ⊢
  unfold EStateM.bind
  cases hr : e h with
  | ok a h' =>
    rw [hr] at hfirst
    exact hfirst.trans (hf a h' (Nat.le_trans hn hfirst.next))
  | error fault h' =>
    rw [hr] at hfirst
    exact hfirst

theorem Confines.modify {k : Heap → Heap} (hk : ∀ h : Heap, h.Confined n targets properties (k h)) :
    Confines n targets properties (modify k : HeapEval Unit) :=
  fun h _ => hk h

theorem confines_read (c : Chain) (x : String) : Confines n targets properties (read c x) := by
  intro h _
  unfold finish read
  cases h.lookup? c x with
  | some v => exact .of_eq rfl rfl
  | none => exact .of_eq rfl rfl

theorem confines_operate (op : BinaryOp) (a b : Value) :
    Confines n targets properties (operate op a b) := by
  intro h _
  unfold finish operate
  cases op.apply a b with
  | ok v => exact .of_eq rfl rfl
  | error fault => exact .of_eq rfl rfl

end HeapEval

section

open HeapEval

variable {n : ScopeId} {targets properties : List String} {self : Value}

/-- An expression changes only what it assigns. -/
theorem Expr.confines (c : Chain) (e : Expr) (he : e.targets ⊆ targets) :
    Confines n targets properties (e.evalIn self c) := by
  induction e with
  | number | string | bool | null | undefined | self => exact .pure _
  | name x => exact confines_read c x
  | unary op e ih => exact (ih he).bind fun v => .pure _
  | binary op l r ihl ihr =>
    obtain ⟨hl, hr⟩ := List.append_subset.1 he
    exact (ihl hl).bind fun a => (ihr hr).bind fun b => confines_operate op a b
  | assign x e ih =>
    obtain ⟨hx, he⟩ := List.cons_subset.1 he
    have hassign (v : Value) : Confines n targets properties
        (modify (·.assign c x v) : HeapEval Unit) := .modify fun h => .assign hx h c v
    exact (ih he).bind fun v => (hassign v).bind fun _ => .pure v

mutual

/-- A statement inside a new scope changes only what it assigns, and the properties that it
declares. -/
theorem Stmt.confines (c : Chain) (hc : n ≤ c.inner) : ∀ s : Stmt, s.targets ⊆ targets →
    s.properties ⊆ properties → Confines n targets properties (s.evalIn self c)
  | .empty _, _, _ | .pause _, _, _ => .pure ()
  | .declare _ how x init, ht, hp => by
    apply (Expr.confines c _ ht).bind
    intro v
    cases how with
    | lexical => exact .modify fun h => .define hc h x v
    | globalProperty =>
      have hx : x ∈ properties := hp List.mem_cons_self
      exact .modify fun h => .setGlobal (Or.inr hx) h v
  | .expr _ e, ht, _ => by
    apply (e.confines c ht).bind
    intro v
    exact .modify fun h => .of_eq rfl rfl
  | .block _ body, ht, hp => by
    intro h hn
    have hgrow : h.Confined n targets properties h.grow := .grow h
    -- the scope of the block is as new as the one around it
    have hbody := bodyEval_confines (c.push h.scopes.next) hn body ht hp
    exact hgrow.trans (hbody h.grow (Nat.le_trans hn hgrow.next))

theorem bodyEval_confines (c : Chain) (hc : n ≤ c.inner) : ∀ body : List Stmt,
    bodyTargets body ⊆ targets → bodyProperties body ⊆ properties →
      Confines n targets properties (evalBodyIn self c body)
  | [], _, _ => .pure ()
  | s :: body, ht, hp => by
    obtain ⟨hts, htb⟩ := List.append_subset.1 ht
    obtain ⟨hps, hpb⟩ := List.append_subset.1 hp
    exact (s.confines c hc hts hps).bind fun _ => bodyEval_confines c hc body htb hpb

end
end

/-! ### Fragments -/

/-- The same names are bound, so each name is bound by the scope that bound it before. -/
theorem Scopes.owner?_congr {s s' : Scopes} {c : Chain}
    (h : ∀ i ∈ c.ids, (s'.read i).names = (s.read i).names) (x : String) :
    s'.owner? c x = s.owner? c x := by
  unfold owner?
  apply List.find?_congr
  intro i hi
  rw [Bool.eq_iff_iff, Bindings.binds_iff, Bindings.binds_iff, h i hi]

namespace Machine

theorem settle_machine (m : Machine) (e : HeapEval Unit) (h : Heap) :
    (m.settle (e h)).1 = m.withHeap (e.finish h) := by
  unfold HeapEval.finish
  cases e h with
  | ok _ h' => rfl
  | error fault h' => rfl

/-- An evaluation changes nothing but the heap, and of the heap only what the fragment names. -/
theorem evaluate_confines (m : Machine) (text : String) :
    ∃ h' targets properties, (m.evaluate text).machine = m.withHeap h' ∧
      m.heap.Confined m.scopes.next targets properties h' ∧
      (∀ x ∈ targets, IsTarget text x) ∧ ∀ x ∈ properties, IsProperty text x := by
  cases h : Tree.ofSource (Source.ofText fragmentName text) with
  | error error =>
    exact ⟨m.heap, [], [], (evaluate_of_misread h).1, .of_eq rfl rfl, nofun, nofun⟩
  | ok body =>
    have hmachine : (m.evaluate text).machine = (m.settle (m.evalFragment body)).1 :=
      congrArg Prod.fst (m.evaluate_of_body h)
    rw [evalFragment, settle_machine] at hmachine
    -- the scope of the fragment is the first new one
    have hgrow : m.heap.Confined m.scopes.next (bodyTargets body) (bodyProperties body)
        m.fragmentHeap := (Heap.Confined.grow m.heap).trans (.of_eq rfl rfl)
    have hbody : HeapEval.Confines m.scopes.next (bodyTargets body) (bodyProperties body)
        (evalBodyIn m.self m.fragmentChain body) :=
      bodyEval_confines _ (Nat.le_refl m.scopes.next) body (List.Subset.refl _) (List.Subset.refl _)
    have hconfined := hgrow.trans (hbody _ hgrow.next)
    exact ⟨_, _, _, hmachine, hconfined, fun x hx => ⟨body, h, hx⟩, fun x hx => ⟨body, h, hx⟩⟩

end Machine

/-- **Fragments are confined.** After an evaluation, however it ended, the frame and those set aside
see the scopes that they saw. Of the scopes that were there, each has the names it had, in their
order, and the values differ only for names that are assigned in the fragment. The properties of the
global object differ only for names that are assigned or declared by `var`. In particular nothing
that is declared by `let` shows: along each chain of these scopes each name is bound where it was
bound before. -/
theorem evaluation_confined (m : Machine) (text : String) :
    let after := (m.evaluate text).machine
    after.frame = m.frame ∧ after.saved = m.saved ∧
      (∀ i < m.scopes.next, (after.scopes.read i).names = (m.scopes.read i).names ∧
        ∀ x, (after.scopes.read i).get? x ≠ (m.scopes.read i).get? x → IsTarget text x) ∧
      (∀ x, after.globals.get? x ≠ m.globals.get? x → IsTarget text x ∨ IsProperty text x) ∧
      ∀ c : Chain, (∀ i ∈ c.ids, i < m.scopes.next) → ∀ x,
        after.scopes.owner? c x = m.scopes.owner? c x := by
  intro after
  obtain ⟨h', targets, properties, hmachine, hconfined, ht, hp⟩ := m.evaluate_confines text
  have hafter : after = m.withHeap h' := hmachine
  rw [hafter]
  refine ⟨rfl, rfl, fun i hi => ⟨hconfined.names i hi, fun x hne => ?_⟩, fun x hne => ?_, ?_⟩
  · by_contra hx
    exact hne (hconfined.values i hi x fun hmem => hx (ht x hmem))
  · by_contra hx
    rw [not_or] at hx
    exact hne (hconfined.globals x (fun hmem => hx.1 (ht x hmem)) fun hmem => hx.2 (hp x hmem))
  · intro c hc x
    exact Scopes.owner?_congr (fun i hi => hconfined.names i (hc i hi)) x

end ScriptDebug
