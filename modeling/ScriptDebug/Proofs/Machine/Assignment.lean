/-
# An assignment writes what is looked up

There are three walks along the visible scopes: to look a name up, to assign it, and
to resolve it for the user. An assignment goes to the slot that the other two read
(`Machine.Target`): the binding in the innermost scope that binds the name, or else
the property of the global object. Its value is the only one that changes, and no
scope gets a name or loses one, so every other name is seen as before, from whatever
scopes (`assignment_reaches_lookup`).

Key definitions: `Machine.BoundIn`, `Machine.Slot`, `Machine.Target`, `Machine.valueAt`,
`Machine.Assigned`.
Key theorems: `Machine.owner?_eq_some_iff`, `Machine.existsUnique_target`,
`Machine.valueAt_assign`, `Machine.valueAt_assign_of_not`, `assignment_reaches_lookup`.
-/
import ScriptDebug.Proofs.Fragment.Names
import ScriptDebug.Proofs.Machine.Reachable

namespace ScriptDebug

/-! ### The scope that is written -/

/-- A value put under one name is not seen under another. -/
theorem Scopes.get?_define_ne {x y : String} (h : y ≠ x) (s : Scopes) (i j : ScopeId) (v : Value) :
    ((s.define i x v).read j).get? y = (s.read j).get? y := by
  rcases s.read_define i j x v with hread | hread
  · rw [hread]
  · rw [hread, Bindings.get?_put, if_neg h]

/-- To overwrite a binding brings no name and takes none. -/
theorem Scopes.names_define {s : Scopes} {i : ScopeId} {x : String}
    (h : (s.read i).binds x = true) (v : Value) (j : ScopeId) :
    ((s.define i x v).read j).names = (s.read j).names := by
  by_cases hij : i = j
  · subst hij
    rw [read_define_self (lt_next_of_binds h), Bindings.names_put,
      if_pos ((Bindings.binds_iff _ x).1 h)]
  · rw [read_define_ne hij]

namespace Machine

variable {m : Machine} {x y : String} {v : Value}

/-- The scope is the innermost of the visible ones that bind the name. -/
def BoundIn (m : Machine) (x : String) (i : ScopeId) : Prop :=
  ∃ before after, m.frame.chain.ids = before ++ i :: after ∧
    (m.scopes.read i).binds x = true ∧ ∀ j ∈ before, (m.scopes.read j).get? x = none

theorem not_binds_iff {b : Bindings} : (!b.binds x) = true ↔ b.get? x = none := by
  simp [Bindings.binds]

theorem owner?_eq_some_iff {i : ScopeId} :
    m.scopes.owner? m.frame.chain x = some i ↔ m.BoundIn x i := by
  unfold Scopes.owner? BoundIn
  simp only [List.find?_eq_some_iff_append, not_binds_iff]
  constructor
  · rintro ⟨hi, before, after, hids, hbefore⟩
    exact ⟨before, after, hids, hi, hbefore⟩
  · rintro ⟨before, after, hids, hi, hbefore⟩
    exact ⟨hi, before, after, hids, hbefore⟩

theorem owner?_eq_none_iff : m.scopes.owner? m.frame.chain x = none ↔ m.Unscoped x := by
  unfold Scopes.owner? Unscoped
  simp [Bindings.binds]

/-- An assignment to a name that a scope binds. -/
theorem assign_of_boundIn {i : ScopeId} (h : m.BoundIn x i) (v : Value) :
    m.assign x v = { m with scopes := m.scopes.define i x v } := by
  rw [assign, owner?_eq_some_iff.2 h]

/-- An assignment to a name that no scope binds. -/
theorem assign_of_unscoped (h : m.Unscoped x) (v : Value) : m.assign x v = m.setGlobal x v := by
  rw [assign, owner?_eq_none_iff.2 h]

theorem boundIn_or_unscoped (m : Machine) (x : String) : (∃ i, m.BoundIn x i) ∨ m.Unscoped x := by
  cases ho : m.scopes.owner? m.frame.chain x with
  | some i => exact .inl ⟨i, owner?_eq_some_iff.1 ho⟩
  | none => exact .inr (owner?_eq_none_iff.1 ho)

theorem BoundIn.unique {i j : ScopeId} (h : m.BoundIn x i) (h' : m.BoundIn x j) : i = j :=
  Option.some.inj ((owner?_eq_some_iff.2 h).symm.trans (owner?_eq_some_iff.2 h'))

theorem BoundIn.not_unscoped {i : ScopeId} (h : m.BoundIn x i) : ¬m.Unscoped x := fun hu =>
  Option.some_ne_none i ((owner?_eq_some_iff.2 h).symm.trans (owner?_eq_none_iff.2 hu))

/-! ### Slots -/

/-- Where a value can be kept under a name: in a scope, or in the global object. -/
inductive Slot where
  | binding (i : ScopeId) (x : String)
  | property (x : String)

def valueAt (m : Machine) : Slot → Option Value
  | .binding i x => (m.scopes.read i).get? x
  | .property x => m.globals.get? x

/-- The slot of a name, as it is seen from the frame. -/
inductive Target (m : Machine) (x : String) : Slot → Prop
  | binding {i : ScopeId} (h : m.BoundIn x i) : Target m x (.binding i x)
  | property (h : m.Unscoped x) : Target m x (.property x)

theorem existsUnique_target (m : Machine) (x : String) : ∃! s, m.Target x s := by
  rcases m.boundIn_or_unscoped x with ⟨i, hi⟩ | hu
  · refine ⟨_, .binding hi, fun s hs => ?_⟩
    cases hs with
    | binding hj => rw [hj.unique hi]
    | property hu => exact absurd hu hi.not_unscoped
  · refine ⟨_, .property hu, fun s hs => ?_⟩
    cases hs with
    | binding hj => exact absurd hu hj.not_unscoped
    | property => rfl

theorem valueAt_assign {s : Slot} (h : m.Target x s) (v : Value) :
    (m.assign x v).valueAt s = some v := by
  cases h with
  | @binding i hi =>
    obtain ⟨_, _, _, hbinds, _⟩ := id hi
    rw [assign_of_boundIn hi]
    simp only [valueAt]
    rw [Scopes.read_define_self (Scopes.lt_next_of_binds hbinds), Bindings.get?_put, if_pos rfl]
  | property hu =>
    rw [assign_of_unscoped hu]
    simp only [valueAt, setGlobal]
    rw [Bindings.get?_put, if_pos rfl]

/-- **No other slot changes.** -/
theorem valueAt_assign_of_not {s : Slot} (h : ¬m.Target x s) (v : Value) :
    (m.assign x v).valueAt s = m.valueAt s := by
  rcases m.boundIn_or_unscoped x with ⟨i, hi⟩ | hu
  · rw [assign_of_boundIn hi]
    cases s with
    | property y => rfl
    | binding j y =>
      simp only [valueAt]
      by_cases hy : y = x
      · subst hy
        have hij : i ≠ j := by
          rintro rfl
          exact h (.binding hi)
        rw [Scopes.read_define_ne hij]
      · exact Scopes.get?_define_ne hy _ _ _ _
  · rw [assign_of_unscoped hu]
    cases s with
    | binding j y => rfl
    | property y =>
      have hy : y ≠ x := by
        rintro rfl
        exact h (.property hu)
      simp only [valueAt, setGlobal]
      rw [Bindings.get?_put, if_neg hy]

theorem names_assign (m : Machine) (x : String) (v : Value) (j : ScopeId) :
    ((m.assign x v).scopes.read j).names = (m.scopes.read j).names := by
  rcases m.boundIn_or_unscoped x with ⟨i, hi⟩ | hu
  · obtain ⟨_, _, _, hbinds, _⟩ := id hi
    rw [assign_of_boundIn hi]
    exact Scopes.names_define hbinds v j
  · rw [assign_of_unscoped hu]
    rfl

/-! ### What is seen afterwards -/

/-- A name is seen through its slots: to have the same value in all of them is to be seen alike from
whatever scopes. -/
theorem find?_congr {m' : Machine} (h : ∀ i, m'.valueAt (.binding i x) = m.valueAt (.binding i x))
    (c : Chain) : m'.scopes.find? c x = m.scopes.find? c x := by
  unfold Scopes.find?
  congr 1
  exact funext h

/-- A slot of one name is no slot of another. -/
theorem Target.name_eq {s : Slot} (h : m.Target x s) :
    (∃ i, s = .binding i x) ∨ s = .property x := by
  cases h with
  | @binding i => exact .inl ⟨i, rfl⟩
  | property => exact .inr rfl

theorem find?_assign_of_boundIn {i : ScopeId} (h : m.BoundIn x i) (v : Value) :
    (m.assign x v).scopes.find? m.frame.chain x = some v := by
  obtain ⟨before, after, hids, hbinds, hbefore⟩ := id h
  have hself : (m.assign x v).valueAt (.binding i x) = some v := valueAt_assign (.binding h) v
  unfold Scopes.find?
  refine List.findSome?_eq_some_iff.2 ⟨before, i, after, hids, hself, fun j hj => ?_⟩
  have hnot : ¬m.Target x (.binding j x) := by
    rintro ⟨hj'⟩
    obtain rfl := hj'.unique h
    simp [Bindings.binds, hbefore _ hj] at hbinds
  have hkept : (m.assign x v).valueAt (.binding j x) = m.valueAt (.binding j x) :=
    valueAt_assign_of_not hnot v
  exact hkept.trans (hbefore j hj)

theorem find?_assign_of_unscoped (h : m.Unscoped x) (v : Value) :
    (m.assign x v).scopes.find? m.frame.chain x = none := by
  rw [assign_of_unscoped h]
  exact unscoped_iff.1 h

/-- **What is assigned is looked up.** -/
theorem lookup?_assign (m : Machine) (x : String) (v : Value) :
    (m.assign x v).lookup? x = some v := by
  have hchain : (m.assign x v).frame.chain = m.frame.chain := (m.sameScopes_assign x v).1
  unfold lookup?
  rw [hchain]
  rcases m.boundIn_or_unscoped x with ⟨i, hi⟩ | hu
  · rw [find?_assign_of_boundIn hi, Option.some_or]
  · have hproperty : (m.assign x v).globals.get? x = some v := valueAt_assign (.property hu) v
    rw [find?_assign_of_unscoped hu, Option.none_or, hproperty]

theorem knownReceiver?_assign (m : Machine) (x : String) (v : Value) :
    (m.assign x v).knownReceiver? = m.knownReceiver? := by
  unfold knownReceiver? receiver?
  rw [(m.keeps_assign x v).base, stack_assign]

/-- The machine as it is seen from other scopes. -/
def seenFrom (m : Machine) (c : Chain) : Machine := { m with frame := { m.frame with chain := c } }

/-- What an assignment leaves of the machine before. The name is found with its value, in the scopes
if a scope bound it, else among the global properties unless a receiver stands in for it. Of all
slots one has changed, the one that the name had, and no scope has other names. Every other name is
seen as before, from whatever scopes. -/
structure Assigned (x : String) (v : Value) (m m' : Machine) : Prop where
  chain : m'.frame.chain = m.frame.chain
  found : m'.lookup? x = some v
  loaded : m'.perform (.loadName x) = .done (m'.push v)
  lexical : ¬m.Unscoped x → m'.resolve x = ⟨v, .lexical, none⟩
  global : m.Unscoped x → (∀ w, m.receiver? = some w → w = .undefined) →
    m'.resolve x = ⟨v, .globalProperty, none⟩
  target : ∃! s, m.Target x s
  written : ∀ s, m.Target x s → m'.valueAt s = some v
  kept : ∀ s, ¬m.Target x s → m'.valueAt s = m.valueAt s
  names : ∀ i, (m'.scopes.read i).names = (m.scopes.read i).names
  others : ∀ y ≠ x, ∀ c, (m'.seenFrom c).lookup? y = (m.seenFrom c).lookup? y ∧
    (m'.seenFrom c).resolve y = (m.seenFrom c).resolve y

theorem resolve_of_find? (h : m.scopes.find? m.frame.chain x = some v) :
    m.resolve x = ⟨v, .lexical, none⟩ := by
  rw [resolve, h]

theorem resolve_of_global (hf : m.scopes.find? m.frame.chain x = none)
    (hr : m.knownReceiver? = none) (hg : m.globals.get? x = some v) :
    m.resolve x = ⟨v, .globalProperty, none⟩ := by
  rw [resolve, hf, hr, hg]

theorem seenFrom_assign_of_ne (h : y ≠ x) (m : Machine) (v : Value) (c : Chain) :
    ((m.assign x v).seenFrom c).lookup? y = (m.seenFrom c).lookup? y ∧
      ((m.assign x v).seenFrom c).resolve y = (m.seenFrom c).resolve y := by
  have hnot : ∀ s, s = .property y ∨ (∃ i, s = .binding i y) → ¬m.Target x s := by
    rintro s (rfl | ⟨i, rfl⟩) ht
    · rcases ht.name_eq with ⟨j, hj⟩ | hj <;> cases hj
      exact h rfl
    · rcases ht.name_eq with ⟨j, hj⟩ | hj <;> cases hj
      exact h rfl
  have hfind : (m.assign x v).scopes.find? c y = m.scopes.find? c y :=
    find?_congr (fun i => valueAt_assign_of_not (hnot _ (.inr ⟨i, rfl⟩)) v) c
  have hglobal : (m.assign x v).globals.get? y = m.globals.get? y :=
    valueAt_assign_of_not (hnot _ (.inl rfl)) v
  have hreceiver : ((m.assign x v).seenFrom c).knownReceiver? = (m.seenFrom c).knownReceiver? :=
    m.knownReceiver?_assign x v
  constructor
  · simp only [lookup?, seenFrom, hfind, hglobal]
  · unfold resolve
    rw [hreceiver]
    simp only [seenFrom, hfind, hglobal]

theorem assigned_assign (m : Machine) (x : String) (v : Value) :
    m.Assigned x v (m.assign x v).advance := by
  have hchain : (m.assign x v).frame.chain = m.frame.chain := (m.sameScopes_assign x v).1
  have hfound : (m.assign x v).advance.lookup? x = some v := m.lookup?_assign x v
  constructor
  · exact hchain
  · exact hfound
  · simp only [perform, hfound]
  · intro hbound
    obtain ⟨i, hi⟩ := (m.boundIn_or_unscoped x).resolve_right hbound
    refine resolve_of_find? ?_
    show (m.assign x v).scopes.find? (m.assign x v).frame.chain x = some v
    rw [hchain]
    exact find?_assign_of_boundIn hi v
  · intro hu hundefined
    have hnone : m.knownReceiver? = none := by
      rw [Option.eq_none_iff_forall_ne_some]
      intro w hw
      obtain ⟨hw, hne⟩ := knownReceiver?_eq_some.1 hw
      exact hne (hundefined w hw)
    refine resolve_of_global ?_ ((m.knownReceiver?_assign x v).trans hnone)
      (valueAt_assign (.property hu) v)
    show (m.assign x v).scopes.find? (m.assign x v).frame.chain x = none
    rw [hchain]
    exact find?_assign_of_unscoped hu v
  · exact m.existsUnique_target x
  · exact fun s hs => valueAt_assign hs v
  · exact fun s hs => valueAt_assign_of_not hs v
  · exact m.names_assign x v
  · exact fun y hy c => seenFrom_assign_of_ne hy m v c

end Machine

/-- **An assignment writes what is looked up.** In a machine that can come about no scope binds a
name twice. Where the instruction at the counter assigns a name and a value is on top of the stack,
the step is done, the value stays on the stack, and the name has the value: it is in the slot that
the name had, which is the only one that changed, and every other name is seen as before. -/
theorem assignment_reaches_lookup {m : Machine} (h : m.Reachable) :
    (∀ i, (m.scopes.read i).names.Nodup) ∧
      ∀ x v rest, m.frame.program.code[m.frame.pc]? = some (.storeName x) → m.stack = v :: rest →
        ∃ m', m.step = .done m' ∧ m'.stack = m.stack ∧ m.Assigned x v m' := by
  refine ⟨h.distinct.scopes, fun x v rest hcode hstack => ?_⟩
  have hstep : m.step = .done (m.assign x v).advance := by
    simp only [Machine.step, hcode, Machine.perform, hstack, Outcome.andThen_done]
  exact ⟨_, hstep, m.stack_assign x v, m.assigned_assign x v⟩

/-- Inside a block that has a name of its own, an assignment leaves the name around it alone. -/
theorem shadowing_name_assigned :
    let code : Array Instruction := #[.loadNull, .defineLet "a", .enterBlock, .loadUndefined,
      .defineLet "a", .loadBool true, .storeName "a"]
    let m := (Machine.runFor 6 (.start ⟨Source.ofText "s" "", code, #[], #[]⟩)).machine
    m.Reachable ∧ m.frame.program.code[m.frame.pc]? = some (.storeName "a") ∧
      m.stack = [.bool true] ∧ ∃ m', m.step = .done m' ∧ m.Assigned "a" (.bool true) m' ∧
        m'.valueAt (.binding 1 "a") = some (.bool true) ∧
        m'.valueAt (.binding 0 "a") = some .null := by
  intro code m
  have hreachable : m.Reachable := Machine.reachable_runFor 6 (.start _)
  have hcode : m.frame.program.code[m.frame.pc]? = some (.storeName "a") := rfl
  have hstack : m.stack = [.bool true] := rfl
  obtain ⟨m', hstep, -, hassigned⟩ :=
    (assignment_reaches_lookup hreachable).2 "a" (.bool true) [] hcode hstack
  have hbound : m.BoundIn "a" 1 := ⟨[], [0], rfl, rfl, nofun⟩
  have hhidden : ¬m.Target "a" (.binding 0 "a") := by
    rintro ⟨h⟩
    exact absurd (h.unique hbound) (by decide)
  have houter : m.valueAt (.binding 0 "a") = some .null := rfl
  exact ⟨hreachable, hcode, hstack, m', hstep, hassigned, hassigned.written _ (.binding hbound),
    (hassigned.kept _ hhidden).trans houter⟩

end ScriptDebug
