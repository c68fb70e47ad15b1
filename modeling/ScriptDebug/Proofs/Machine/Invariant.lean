/-
# What every instruction preserves

Three things hold of a machine whatever it executes, once they hold at the
start: the visible scopes are different ones and in the store
(`Machine.WellScoped`), no value stands for a name without one
(`Machine.Resolved`), and the store of scopes never gets smaller. The second is
why an operator never refuses its operands.

Key definitions: `Machine.WellScoped`, `Value.Resolved`, `Machine.Resolved`.
Key theorems: `Machine.wellScoped_execute`, `Machine.next_le_execute`,
`Machine.resolved_execute`.
-/
import ScriptDebug.Proofs.Machine.Execution

namespace ScriptDebug

/-! ### Scopes -/

namespace Machine

/-- The visible scopes are all in the store, and no two of them are one. -/
structure WellScoped (m : Machine) : Prop where
  nodup : m.frame.chain.ids.Nodup
  known : ∀ i ∈ m.frame.chain.ids, i < m.scopes.next

theorem wellScoped_start (p : Program) : (start p).WellScoped :=
  ⟨List.nodup_cons.2 ⟨List.not_mem_nil, List.nodup_nil⟩,
    List.forall_mem_singleton.2 Nat.zero_lt_one⟩

theorem wellScoped_withReceiver (p : Program) (v : Value) : (withReceiver p v).WellScoped :=
  ⟨(wellScoped_start p).nodup, (wellScoped_start p).known⟩

/-- The same scopes are visible, and there are as many. -/
def SameScopes (m m' : Machine) : Prop :=
  m'.frame.chain = m.frame.chain ∧ m'.scopes.next = m.scopes.next

theorem sameScopes_assign (m : Machine) (x : String) (v : Value) :
    m.SameScopes (m.assign x v) := by
  unfold assign
  split
  · exact ⟨rfl, Scopes.next_define _ _ _ _⟩
  · exact ⟨rfl, rfl⟩

/-- Only the instructions of blocks change which scopes are visible. -/
theorem perform_scopes (m : Machine) (i : Instruction) :
    m.SameScopes (m.perform i).machine ∨ (m.perform i).machine = m.enterBlock ∨
      m.leaveBlock? = some (m.perform i).machine := by
  cases i with
  | loadConst | loadName => simp only [perform]; split <;> exact Or.inl ⟨rfl, rfl⟩
  | loadUndefined | loadNull | loadBool | loadThis | loadGlobalThis | pause | halt =>
    exact Or.inl ⟨rfl, rfl⟩
  | storeName =>
    simp only [perform]
    split
    · exact Or.inl (sameScopes_assign _ _ _)
    · exact Or.inl ⟨rfl, rfl⟩
  | defineLet =>
    exact Or.inl (withTop_machine ⟨rfl, rfl⟩ fun _ _ _ _ => ⟨rfl, Scopes.next_define _ _ _ _⟩)
  | defineVar | neg | not | pop | saveResult =>
    exact Or.inl (withTop_machine ⟨rfl, rfl⟩ fun _ _ _ _ => ⟨rfl, rfl⟩)
  | binary op =>
    refine Or.inl (withTop_machine ⟨rfl, rfl⟩ fun b _ _ _ => ?_)
    refine withTop_machine ⟨rfl, rfl⟩ fun a _ _ _ => ?_
    cases op.apply a b <;> exact ⟨rfl, rfl⟩
  | enterBlock => exact Or.inr (Or.inl rfl)
  | leaveBlock =>
    simp only [perform]
    cases h : m.leaveBlock? with
    | none => exact Or.inl ⟨rfl, rfl⟩
    | some m' => exact Or.inr (Or.inr rfl)

theorem leaveBlock_eq {m m' : Machine} (h : m.leaveBlock? = some m') :
    m'.frame.chain.ids = m.frame.chain.outer ∧ m'.scopes = m.scopes := by
  unfold leaveBlock? Chain.around? at h
  split at h
  · cases h
  · rename_i i is hc
    cases h
    exact ⟨hc.symm, rfl⟩

theorem WellScoped.enterBlock {m : Machine} (h : m.WellScoped) : m.enterBlock.WellScoped where
  nodup := List.nodup_cons.2 ⟨fun hi => Nat.lt_irrefl _ (h.known _ hi), h.nodup⟩
  known i hi := by
    rw [next_enterBlock]
    rcases List.mem_cons.1 hi with rfl | hi
    · exact Nat.lt_succ_self _
    · exact Nat.lt_succ_of_lt (h.known i hi)

theorem wellScoped_perform {m : Machine} (h : m.WellScoped) (i : Instruction) :
    (m.perform i).machine.WellScoped := by
  rcases m.perform_scopes i with ⟨hc, hn⟩ | he | hl
  · exact ⟨hc ▸ h.nodup, hc ▸ hn ▸ h.known⟩
  · exact he ▸ h.enterBlock
  · obtain ⟨hc, hs⟩ := leaveBlock_eq hl
    refine ⟨hc ▸ (List.nodup_cons.1 h.nodup).2, fun j hj => ?_⟩
    rw [hc] at hj
    rw [hs]
    exact h.known j (List.mem_cons_of_mem _ hj)

theorem next_le_perform (m : Machine) (i : Instruction) :
    m.scopes.next ≤ (m.perform i).machine.scopes.next := by
  rcases m.perform_scopes i with ⟨-, hn⟩ | he | hl
  · exact Nat.le_of_eq hn.symm
  · rw [he, next_enterBlock]
    exact Nat.le_succ _
  · exact Nat.le_of_eq (congrArg Scopes.next (leaveBlock_eq hl).2.symm)

theorem wellScoped_execute {m : Machine} (h : m.WellScoped) (is : List Instruction) :
    (execute is m).machine.WellScoped :=
  execute_machine (P := WellScoped) (fun _ i h => wellScoped_perform h i)
    (fun _ h => ⟨h.nodup, h.known⟩) is h

theorem next_le_execute (m : Machine) (is : List Instruction) :
    m.scopes.next ≤ (execute is m).machine.scopes.next :=
  execute_machine (P := fun m' => m.scopes.next ≤ m'.scopes.next)
    (fun m' i h => Nat.le_trans h (m'.next_le_perform i)) (fun _ h => h) is (Nat.le_refl _)

end Machine

/-! ### Values of names -/

/-- The value stands for something. -/
def Value.Resolved (v : Value) : Prop := ∀ x, v ≠ .unresolved x

/-- Every value bound to a name stands for something. -/
def Bindings.Resolved (b : Bindings) : Prop := ∀ x v, b.get? x = some v → v.Resolved

theorem Bindings.resolved_empty : Bindings.empty.Resolved := by
  intro x v hv
  cases hv

theorem Bindings.Resolved.put {b : Bindings} (hb : b.Resolved) {v : Value} (hv : v.Resolved)
    (x : String) : (b.put x v).Resolved := by
  intro y w hw
  rw [Bindings.get?_put] at hw
  split at hw
  · cases hw
    exact hv
  · exact hb y w hw

theorem BinaryOp.resolved_value (op : BinaryOp) (a b : Value) : (op.value a b).Resolved := by
  intro x
  cases op with
  | add =>
    simp only [BinaryOp.value, Value.add]
    split <;> exact nofun
  | _ => exact nofun

/-- Values that stand for something are not refused. -/
theorem BinaryOp.apply_eq (op : BinaryOp) {a b : Value} (ha : a.Resolved) (hb : b.Resolved) :
    op.apply a b = .ok (op.value a b) := by
  unfold BinaryOp.apply
  split
  · exact absurd rfl (ha _)
  · exact absurd rfl (hb _)
  · rfl

/-- Binding a name in some scope binds it in each scope or leaves that scope as it was. -/
theorem Scopes.read_define (s : Scopes) (i j : ScopeId) (x : String) (v : Value) :
    (s.define i x v).read j = s.read j ∨ (s.define i x v).read j = (s.read j).put x v := by
  by_cases hij : i = j
  · subst hij
    by_cases hi : i < s.next
    · exact Or.inr (read_define_self hi x v)
    · have hnone : ∀ a : Array Bindings, a.size ≤ i → a.getD i .empty = .empty := fun a ha => by
        rw [Array.getD_eq_getD_getElem?, Array.getElem?_eq_none ha]
        rfl
      have hs : s.cells.size ≤ i := Nat.le_of_not_lt hi
      exact Or.inl ((hnone _ (Array.size_modify.symm ▸ hs)).trans (hnone _ hs).symm)
  · exact Or.inl (read_define_ne hij s x v)

namespace Machine

/-- No value anywhere stands for a name without one. -/
structure Resolved (m : Machine) : Prop where
  constants : ∀ v ∈ m.frame.program.constants, v.Resolved
  stack : ∀ v ∈ m.stack, v.Resolved
  scopes : ∀ i, (m.scopes.read i).Resolved
  globals : m.globals.Resolved

namespace Resolved

variable {m : Machine}

theorem push (h : m.Resolved) {v : Value} (hv : v.Resolved) : (m.push v).Resolved :=
  ⟨h.constants, List.forall_mem_cons.2 ⟨hv, h.stack⟩, h.scopes, h.globals⟩

theorem self (h : m.Resolved) : m.self.Resolved := by
  unfold Machine.self receiver?
  cases m.frame.base with
  | none => exact nofun
  | some i =>
    simp only [Option.bind_some]
    cases hv : m.stack.reverse[i]? with
    | none => exact nofun
    | some v => exact h.stack v (List.mem_reverse.1 (List.mem_of_getElem? hv))

theorem lookup (h : m.Resolved) {x : String} {v : Value} (hv : m.lookup? x = some v) :
    v.Resolved := by
  unfold lookup? at hv
  rcases Option.or_eq_some_iff.1 hv with hv | ⟨-, hv⟩
  · obtain ⟨i, -, hi⟩ := List.exists_of_findSome?_eq_some hv
    exact h.scopes i x v hi
  · exact h.globals x v hv

theorem setGlobal (h : m.Resolved) {v : Value} (hv : v.Resolved) (x : String) :
    (m.setGlobal x v).Resolved :=
  ⟨h.constants, h.stack, h.scopes, h.globals.put hv x⟩

/-- Binding a name in a scope, which the store need not hold. -/
theorem bind (h : m.Resolved) {v : Value} (hv : v.Resolved) (i : ScopeId) (x : String) :
    { m with scopes := m.scopes.define i x v }.Resolved := by
  refine ⟨h.constants, h.stack, fun j => ?_, h.globals⟩
  rcases m.scopes.read_define i j x v with e | e <;> rw [e]
  · exact h.scopes j
  · exact (h.scopes j).put hv x

theorem assign (h : m.Resolved) {v : Value} (hv : v.Resolved) (x : String) :
    (m.assign x v).Resolved := by
  unfold Machine.assign
  split
  · exact h.bind hv _ x
  · exact h.setGlobal hv x

theorem enterBlock (h : m.Resolved) : m.enterBlock.Resolved :=
  ⟨h.constants, h.stack, fun i => Scopes.read_grow m.scopes i ▸ h.scopes i, h.globals⟩

theorem leaveBlock (h : m.Resolved) {m' : Machine} (hl : m.leaveBlock? = some m') :
    m'.Resolved := by
  obtain ⟨c, -, rfl⟩ := Option.map_eq_some_iff.1 hl
  exact ⟨h.constants, h.stack, h.scopes, h.globals⟩

/-- Another counter, another completion value and another halt flag. -/
theorem of_eq (h : m.Resolved) {m' : Machine} (hp : m'.frame.program = m.frame.program)
    (hs : m'.stack = m.stack) (hc : m'.scopes = m.scopes) (hg : m'.globals = m.globals) :
    m'.Resolved :=
  ⟨hp ▸ h.constants, hs ▸ h.stack, hc ▸ h.scopes, hg ▸ h.globals⟩

end Resolved
end Machine

/-- No value stands for a name without one, and that is not the fault either. -/
structure Outcome.Resolved (o : Outcome) : Prop where
  machine : o.machine.Resolved
  fault : ∀ x, o.fault? ≠ some (.unresolvedOperand x)

namespace Outcome.Resolved

theorem done {m : Machine} (h : m.Resolved) : (Outcome.done m).Resolved := ⟨h, nofun⟩

theorem unbound {m : Machine} (h : m.Resolved) (x : String) :
    (Outcome.raised (.unbound x) m).Resolved := ⟨h, nofun⟩

theorem broken {m : Machine} (h : m.Resolved) (b : Breach) :
    (Outcome.raised (.broken b) m).Resolved := ⟨h, nofun⟩

theorem andThen {o : Outcome} {k : Machine → Outcome} (h : o.Resolved)
    (hk : ∀ m : Machine, m.Resolved → (k m).Resolved) : (o.andThen k).Resolved := by
  cases o with
  | done m => exact hk m h.machine
  | raised f m => exact h

/-- Taking off the top value, which stands for something. -/
theorem withTop {m : Machine} (h : m.Resolved) {k : Value → Machine → Outcome}
    (hk : ∀ (v : Value) (m : Machine), v.Resolved → m.Resolved → (k v m).Resolved) :
    (m.withTop k).Resolved := by
  obtain ⟨v, rest, hs, -, e⟩ | ⟨-, e⟩ := m.withTop_cases k <;> rw [e]
  · have hstack := h.stack
    rw [hs] at hstack
    obtain ⟨hv, hrest⟩ := List.forall_mem_cons.1 hstack
    exact hk v _ hv ⟨h.constants, hrest, h.scopes, h.globals⟩
  · exact broken h _

end Outcome.Resolved

namespace Machine

/-- **No name without a value ever becomes a value**, and so no operator refuses one. -/
theorem resolved_perform {m : Machine} (h : m.Resolved) (i : Instruction) :
    (m.perform i).Resolved := by
  cases i with
  | loadConst j =>
    simp only [perform]
    split
    · rename_i v hv
      exact .done (h.push (h.constants v (Array.mem_of_getElem? hv)))
    · exact .broken h _
  | loadName x =>
    simp only [perform]
    split
    · rename_i v hv
      exact .done (h.push (h.lookup hv))
    · exact .unbound h x
  | loadUndefined | loadNull | loadBool | loadGlobalThis =>
    exact .done (h.push (by simp [Value.Resolved]))
  | loadThis => exact .done (h.push h.self)
  | storeName x =>
    simp only [perform]
    split
    · rename_i v rest hs
      exact .done (h.assign (h.stack v (hs ▸ List.mem_cons_self)) x)
    · exact .broken h _
  | defineLet x => exact .withTop h fun v m hv hm => .done (hm.bind hv _ x)
  | defineVar x => exact .withTop h fun v m hv hm => .done (hm.setGlobal hv x)
  | neg | not => exact .withTop h fun v m _ hm => .done (hm.push (by simp [Value.Resolved]))
  | binary op =>
    refine .withTop h fun b m hb hm => .withTop hm fun a m ha hm => ?_
    rw [op.apply_eq ha hb]
    exact .done (hm.push (op.resolved_value a b))
  | pop => exact .withTop h fun _ m _ hm => .done hm
  | saveResult => exact .withTop h fun _ m _ hm => .done (hm.of_eq rfl rfl rfl rfl)
  | enterBlock => exact .done h.enterBlock
  | leaveBlock =>
    simp only [perform]
    split
    · rename_i hl
      exact .done (h.leaveBlock hl)
    · exact .broken h _
  | pause => exact .done h
  | halt => exact .done (h.of_eq rfl rfl rfl rfl)

theorem resolved_execute {m : Machine} (h : m.Resolved) (is : List Instruction) :
    (execute is m).Resolved := by
  induction is generalizing m with
  | nil => exact .done h
  | cons i is ih =>
    exact (resolved_perform h i).andThen fun m hm => ih (hm.of_eq rfl rfl rfl rfl)

end Machine
end ScriptDebug
