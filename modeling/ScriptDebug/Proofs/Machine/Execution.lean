/-
# Execution in a straight line

There are no jumps, so a machine does what its instructions do one after the
other. `execute` performs a list of them; `n` steps execute the next `n`
instructions of the program (`steps_eq_execute`), and where the only halt
stands last, to run is to step to the end (`run_eq_steps`).

An instruction works on the stack, the scopes, the globals and the completion
value. It leaves alone the program and its counter, the base, the arguments,
the frames set aside, and all of the stack that lies below the floor
(`keeps_perform`).

Key definitions: `Machine.SameFrame`, `Machine.Keeps`, `Machine.steps`,
`Machine.execute`.
Key theorems: `Machine.keeps_perform`, `Machine.steps_eq_execute`,
`Machine.run_eq_steps`.
-/
import Mathlib
import ScriptDebug.Machine.Step

namespace ScriptDebug

/-! ### Outcomes -/

namespace Outcome

@[simp] theorem machine_done (m : Machine) : (done m).machine = m := rfl

@[simp] theorem machine_raised (f : Fault) (m : Machine) : (raised f m).machine = m := rfl

@[simp] theorem fault?_done (m : Machine) : (done m).fault? = none := rfl

@[simp] theorem fault?_raised (f : Fault) (m : Machine) : (raised f m).fault? = some f := rfl

@[simp] theorem andThen_done (m : Machine) (k : Machine → Outcome) : (done m).andThen k = k m := rfl

@[simp] theorem andThen_raised (f : Fault) (m : Machine) (k : Machine → Outcome) :
    (raised f m).andThen k = raised f m := rfl

theorem andThen_assoc (o : Outcome) (k l : Machine → Outcome) :
    (o.andThen k).andThen l = o.andThen fun m => (k m).andThen l := by
  cases o <;> rfl

@[simp] theorem andThen_done_self (o : Outcome) : o.andThen done = o := by
  cases o <;> rfl

/-- What holds where a fault stops, and after what comes next if none does, holds at the end. -/
theorem machine_andThen {P : Machine → Prop} {o : Outcome} {k : Machine → Outcome}
    (ho : P o.machine) (hk : ∀ m, o = .done m → P m → P (k m).machine) :
    P (o.andThen k).machine := by
  cases o with
  | done m => exact hk m rfl ho
  | raised f m => exact ho

end Outcome

/-- An operator refuses names without a value and nothing else. -/
theorem BinaryOp.apply_error {op : BinaryOp} {a b : Value} {fault : Fault}
    (h : op.apply a b = .error fault) : ∃ x, fault = .unresolvedOperand x := by
  unfold BinaryOp.apply at h
  split at h
  · cases h
    exact ⟨_, rfl⟩
  · cases h
    exact ⟨_, rfl⟩
  · cases h

namespace Machine

/-! ### What no instruction touches -/

/-- The one machine runs in the frame of the other, and what lay on the stack below the floor is
still there. -/
structure SameFrame (m m' : Machine) : Prop where
  program : m'.frame.program = m.frame.program
  base : m'.frame.base = m.frame.base
  args : m'.frame.args = m.frame.args
  saved : m'.saved = m.saved
  bottom : ∀ b, b <:+ m.stack → b.length ≤ m.floor → b <:+ m'.stack

namespace SameFrame

theorem refl (m : Machine) : m.SameFrame m := ⟨rfl, rfl, rfl, rfl, fun _ hb _ => hb⟩

theorem floor {m m' : Machine} (h : m.SameFrame m') : m'.floor = m.floor := by
  simp only [Machine.floor, h.base]

theorem trans {a b c : Machine} (h : a.SameFrame b) (h' : b.SameFrame c) : a.SameFrame c where
  program := h'.program.trans h.program
  base := h'.base.trans h.base
  args := h'.args.trans h.args
  saved := h'.saved.trans h.saved
  bottom b hb hl := h'.bottom b (h.bottom b hb hl) (h.floor.symm ▸ hl)

theorem advance (m : Machine) : m.SameFrame m.advance := ⟨rfl, rfl, rfl, rfl, fun _ hb _ => hb⟩

end SameFrame

/-- Moreover the counter stands where it stood. -/
structure Keeps (m m' : Machine) : Prop extends SameFrame m m' where
  pc : m'.frame.pc = m.frame.pc

namespace Keeps

/-- It is enough to look at the frame where the stack stays as it is. -/
theorem of_stack {m m' : Machine} (hp : m'.frame.program = m.frame.program)
    (hc : m'.frame.pc = m.frame.pc) (hb : m'.frame.base = m.frame.base)
    (ha : m'.frame.args = m.frame.args) (hs : m'.saved = m.saved) (h : m'.stack = m.stack) :
    m.Keeps m' :=
  ⟨⟨hp, hb, ha, hs, fun _ hb _ => h ▸ hb⟩, hc⟩

theorem refl (m : Machine) : m.Keeps m := ⟨.refl m, rfl⟩

theorem trans {a b c : Machine} (h : a.Keeps b) (h' : b.Keeps c) : a.Keeps c :=
  ⟨h.toSameFrame.trans h'.toSameFrame, h'.pc.trans h.pc⟩

end Keeps

theorem keeps_push (m : Machine) (v : Value) : m.Keeps (m.push v) :=
  ⟨⟨rfl, rfl, rfl, rfl, fun _ hb _ => hb.trans (List.suffix_cons v _)⟩, rfl⟩

theorem keeps_drop {m : Machine} {v : Value} {rest : List Value} (hs : m.stack = v :: rest)
    (hf : m.floor ≤ rest.length) : m.Keeps { m with stack := rest } := by
  refine ⟨⟨rfl, rfl, rfl, rfl, fun b hb hl => ?_⟩, rfl⟩
  rw [hs] at hb
  rcases List.suffix_cons_iff.1 hb with rfl | hb
  · rw [List.length_cons] at hl
    omega
  · exact hb

theorem stack_assign (m : Machine) (x : String) (v : Value) : (m.assign x v).stack = m.stack := by
  unfold assign
  split <;> rfl

theorem halted_assign (m : Machine) (x : String) (v : Value) :
    (m.assign x v).halted = m.halted := by
  unfold assign
  split <;> rfl

theorem keeps_assign (m : Machine) (x : String) (v : Value) : m.Keeps (m.assign x v) := by
  unfold assign
  split <;> exact .of_stack rfl rfl rfl rfl rfl rfl

theorem next_enterBlock (m : Machine) : m.enterBlock.scopes.next = m.scopes.next + 1 :=
  Scopes.next_grow _

/-- Taking off the top value in a machine that can. -/
theorem withTop_of_stack {m : Machine} {v : Value} {rest : List Value} (hs : m.stack = v :: rest)
    (hf : m.floor ≤ rest.length) (k : Value → Machine → Outcome) :
    m.withTop k = k v { m with stack := rest } := by
  have hlt : m.floor < m.height := by
    rw [height, hs, List.length_cons]
    omega
  simp only [withTop, pop?, hs, if_pos hlt]

/-- Either the top value comes off, or nothing above the floor is left. -/
theorem withTop_cases (m : Machine) (k : Value → Machine → Outcome) :
    (∃ v rest, m.stack = v :: rest ∧ m.floor ≤ rest.length ∧
      m.withTop k = k v { m with stack := rest }) ∨
    (m.height ≤ m.floor ∧ m.withTop k = .raised (.broken .stackUnderflow) m) := by
  cases hs : m.stack with
  | nil =>
    have hheight : m.height = 0 := by rw [height, hs, List.length_nil]
    exact Or.inr ⟨by omega, by simp only [withTop, pop?, hs]⟩
  | cons v rest =>
    have hheight : m.height = rest.length + 1 := by rw [height, hs, List.length_cons]
    by_cases h : m.floor ≤ rest.length
    · exact Or.inl ⟨v, rest, rfl, h, withTop_of_stack hs h k⟩
    · have hn : ¬m.floor < m.height := by omega
      exact Or.inr ⟨by omega, by simp only [withTop, pop?, hs, if_neg hn]⟩

/-- What holds of a machine, and after what is done with its top value, holds after taking it off. -/
theorem withTop_machine {m : Machine} {k : Value → Machine → Outcome} {P : Machine → Prop}
    (hm : P m) (hk : ∀ v rest, m.stack = v :: rest → m.floor ≤ rest.length →
      P (k v { m with stack := rest }).machine) : P (m.withTop k).machine := by
  obtain ⟨v, rest, hs, hf, e⟩ | ⟨-, e⟩ := m.withTop_cases k <;> rw [e]
  · exact hk v rest hs hf
  · exact hm

theorem keeps_withTop (m : Machine) {k : Value → Machine → Outcome}
    (hk : ∀ v m', Keeps m' (k v m').machine) : m.Keeps (m.withTop k).machine :=
  withTop_machine (.refl m) fun _ _ hs hf => (keeps_drop hs hf).trans (hk _ _)

/-- An instruction leaves its frame alone, and the stack below the floor. -/
theorem keeps_perform (m : Machine) (i : Instruction) : m.Keeps (m.perform i).machine := by
  cases i with
  | loadConst | loadName =>
    simp only [perform]
    split
    · exact keeps_push _ _
    · exact .refl m
  | loadUndefined | loadNull | loadBool | loadThis | loadGlobalThis => exact keeps_push _ _
  | storeName =>
    simp only [perform]
    split
    · exact keeps_assign _ _ _
    · exact .refl m
  | defineLet | defineVar | pop | saveResult =>
    exact m.keeps_withTop fun _ _ => .of_stack rfl rfl rfl rfl rfl rfl
  | neg | not => exact m.keeps_withTop fun _ _ => keeps_push _ _
  | binary op =>
    refine m.keeps_withTop fun b m' => m'.keeps_withTop fun a m'' => ?_
    cases op.apply a b
    · exact .refl m''
    · exact keeps_push _ _
  | enterBlock | pause | halt => exact .of_stack rfl rfl rfl rfl rfl rfl
  | leaveBlock =>
    simp only [perform, leaveBlock?]
    cases m.frame.chain.around?
    · exact .refl m
    · exact .of_stack rfl rfl rfl rfl rfl rfl

theorem halted_withTop (m : Machine) {k : Value → Machine → Outcome}
    (hk : ∀ v m', (k v m').machine.halted = m'.halted) :
    (m.withTop k).machine.halted = m.halted :=
  withTop_machine (P := (·.halted = m.halted)) rfl fun _ _ _ _ => hk _ _

/-- Only a halt halts. -/
theorem halted_perform (m : Machine) {i : Instruction} (h : i ≠ .halt) :
    (m.perform i).machine.halted = m.halted := by
  cases i with
  | loadConst | loadName => simp only [perform]; split <;> rfl
  | loadUndefined | loadNull | loadBool | loadThis | loadGlobalThis | enterBlock | pause => rfl
  | halt => exact absurd rfl h
  | storeName =>
    simp only [perform]
    split
    · exact halted_assign _ _ _
    · rfl
  | leaveBlock =>
    simp only [perform, leaveBlock?]
    cases m.frame.chain.around? <;> rfl
  | defineLet | defineVar | neg | not | pop | saveResult => exact m.halted_withTop fun _ _ => rfl
  | binary op =>
    refine m.halted_withTop fun b m' => m'.halted_withTop fun a m'' => ?_
    cases op.apply a b <;> rfl

/-- A step that is done performed the instruction at the counter and moved on. -/
theorem step_eq_done {m m' : Machine} (h : m.step = .done m') :
    ∃ i m₁, m.frame.program.code[m.frame.pc]? = some i ∧ m.perform i = .done m₁ ∧
      m₁.advance = m' := by
  unfold step at h
  split at h
  · rename_i i hi
    cases hp : m.perform i with
    | raised f m₁ => simp [hp] at h
    | done m₁ =>
      rw [hp] at h
      cases h
      exact ⟨i, m₁, hi, hp, rfl⟩
  · cases h

/-- What every instruction preserves, and what does not depend on the counter, a step preserves. -/
theorem step_machine {m : Machine} {P : Machine → Prop} (hm : P m)
    (hp : ∀ i, P (m.perform i).machine) (ha : ∀ m', P m' → P m'.advance) : P m.step.machine := by
  unfold step
  split
  · rename_i i _
    exact Outcome.machine_andThen (hp i) fun m' _ hm' => ha m' hm'
  · exact hm

/-- A step stays in its frame. -/
theorem sameFrame_step (m : Machine) : m.SameFrame m.step.machine :=
  step_machine (.refl m) (fun i => (keeps_perform m i).toSameFrame) fun m' h => h.trans (.advance m')

theorem pc_step {m m' : Machine} (h : m.step = .done m') : m'.frame.pc = m.frame.pc + 1 := by
  obtain ⟨i, m₁, -, hp, rfl⟩ := step_eq_done h
  have hk := keeps_perform m i
  rw [hp] at hk
  exact congrArg (· + 1) hk.pc

theorem hasInstructions_of_step {m m' : Machine} (h : m.step = .done m') :
    m.hasInstructions = true := by
  obtain ⟨i, -, hi, -⟩ := step_eq_done h
  exact decide_eq_true (Array.getElem?_eq_some_iff.1 hi).1

/-- A run stays in its frame. -/
theorem sameFrame_runFor (n : Nat) (m : Machine) : m.SameFrame (runFor n m).machine := by
  induction n generalizing m with
  | zero => exact .refl m
  | succ n ih =>
    unfold runFor
    split
    · exact Outcome.machine_andThen (sameFrame_step m) fun m' _ hk => hk.trans (ih m')
    · exact .refl m

/-! ### Lists of instructions -/

/-- Performs instructions one after the other, moving the counter past each. -/
def execute : List Instruction → Machine → Outcome
  | [], m => .done m
  | i :: is, m => (m.perform i).andThen fun m => execute is m.advance

/-- Executes `n` instructions of the program. -/
def steps : Nat → Machine → Outcome
  | 0, m => .done m
  | n + 1, m => m.step.andThen (steps n)

theorem execute_cons (i : Instruction) (is : List Instruction) (m : Machine) :
    execute (i :: is) m = (m.perform i).andThen fun m => execute is m.advance := rfl

theorem execute_append (is js : List Instruction) (m : Machine) :
    execute (is ++ js) m = (execute is m).andThen (execute js) := by
  induction is generalizing m with
  | nil => rfl
  | cons i is ih =>
    rw [List.cons_append, execute_cons, execute_cons, Outcome.andThen_assoc]
    congr 1
    funext m
    exact ih _

/-- What every instruction preserves, and what does not depend on the counter, code preserves. -/
theorem execute_machine {P : Machine → Prop} (hp : ∀ m i, P m → P (m.perform i).machine)
    (ha : ∀ m, P m → P m.advance) (is : List Instruction) {m : Machine} (hm : P m) :
    P (execute is m).machine := by
  induction is generalizing m with
  | nil => exact hm
  | cons i is ih =>
    exact Outcome.machine_andThen (hp m i hm) fun m' _ hm' => ih (ha m' hm')

theorem steps_succ (n : Nat) (m : Machine) : m.steps (n + 1) = m.step.andThen (steps n) := rfl

theorem steps_one (m : Machine) : m.steps 1 = m.step := Outcome.andThen_done_self _

theorem steps_add (a b : Nat) (m : Machine) : m.steps (a + b) = (m.steps a).andThen (steps b) := by
  induction a generalizing m with
  | zero => rw [Nat.zero_add]; rfl
  | succ a ih =>
    rw [Nat.succ_add, steps_succ, steps_succ, Outcome.andThen_assoc]
    congr 1
    funext m
    exact ih _

/-- The instructions that are left. -/
def ahead (m : Machine) : List Instruction := m.frame.program.code.toList.drop m.frame.pc

theorem ahead_advance {m m' : Machine} (h : m.Keeps m') {i : Instruction} {is : List Instruction}
    (ha : m.ahead = i :: is) : m'.advance.ahead = is := by
  have e : m'.advance.ahead = m.frame.program.code.toList.drop (m.frame.pc + 1) := by
    simp only [ahead, advance, h.program, h.pc]
  rw [e, ← List.drop_drop, show m.frame.program.code.toList.drop m.frame.pc = i :: is from ha]
  rfl

theorem step_of_ahead {m : Machine} {i : Instruction} {is : List Instruction}
    (ha : m.ahead = i :: is) : m.step = (m.perform i).andThen fun m => .done m.advance := by
  have hi : m.frame.program.code[m.frame.pc]? = some i := by
    rw [← Array.getElem?_toList, ← List.head?_drop]
    exact congrArg List.head? ha
  simp only [step, hi]

theorem hasInstructions_iff (m : Machine) : m.hasInstructions = true ↔ m.ahead ≠ [] := by
  simp [hasInstructions, ahead]

/-- To step is to execute what is ahead. -/
theorem steps_eq_execute {m : Machine} {is js : List Instruction} (ha : m.ahead = is ++ js) :
    m.steps is.length = execute is m := by
  induction is generalizing m with
  | nil => rfl
  | cons i is ih =>
    rw [List.length_cons, steps_succ, step_of_ahead ha, execute_cons, Outcome.andThen_assoc]
    have hk := keeps_perform m i
    cases hp : m.perform i with
    | raised f m' => rfl
    | done m' =>
      rw [hp] at hk
      exact ih (ahead_advance hk ha)

/-- The counter counts the steps. -/
theorem keeps_steps {n : Nat} {m m' : Machine} (h : m.steps n = .done m') :
    m.SameFrame m' ∧ m'.frame.pc = m.frame.pc + n := by
  induction n generalizing m with
  | zero =>
    cases h
    exact ⟨.refl _, rfl⟩
  | succ n ih =>
    have hframe := sameFrame_step m
    rw [steps_succ] at h
    cases hs : m.step with
    | raised f m₁ => simp [hs] at h
    | done m₁ =>
      rw [hs] at h hframe
      obtain ⟨hf, hc⟩ := ih h
      have hpc := pc_step hs
      exact ⟨hframe.trans hf, by omega⟩

/-- Steps without a fault have a last one. -/
theorem steps_last {n : Nat} {m m' : Machine} (h : m.steps (n + 1) = .done m') :
    ∃ m₁, m.steps n = .done m₁ ∧ m₁.step = .done m' := by
  rw [steps_add n 1] at h
  cases hn : m.steps n with
  | raised f m₁ => simp [hn] at h
  | done m₁ =>
    rw [hn, Outcome.andThen_done, steps_one] at h
    exact ⟨m₁, rfl, h⟩

/-- The machine gets from one state to the other without a fault. -/
def Reaches (m m' : Machine) : Prop := ∃ n, m.steps n = .done m'

/-- Only the reading of a name finds it unbound, and then nothing happened. -/
theorem perform_unbound {m m' : Machine} {i : Instruction} {x : String}
    (h : m.perform i = .raised (.unbound x) m') : i = .loadName x ∧ m' = m := by
  have htop : ∀ (m : Machine) (k : Value → Machine → Outcome),
      (∀ v m₁, k v m₁ ≠ .raised (.unbound x) m') → m.withTop k ≠ .raised (.unbound x) m' := by
    intro m k hk
    obtain ⟨v, rest, -, -, e⟩ | ⟨-, e⟩ := m.withTop_cases k <;> rw [e]
    · exact hk v _
    · exact nofun
  cases i with
  | loadName y =>
    simp only [perform] at h
    split at h
    · cases h
    · cases h
      exact ⟨rfl, rfl⟩
  | loadConst | storeName | leaveBlock => simp only [perform] at h; split at h <;> cases h
  | loadUndefined | loadNull | loadBool | loadThis | loadGlobalThis | enterBlock | pause | halt =>
    cases h
  | defineLet | defineVar | neg | not | pop | saveResult =>
    exact absurd h (htop m _ fun _ _ => nofun)
  | binary op =>
    refine absurd h (htop m _ fun b m₁ => htop m₁ _ fun a m₂ => ?_)
    cases hv : op.apply a b with
    | ok v => exact nofun
    | error fault =>
      obtain ⟨y, rfl⟩ := BinaryOp.apply_error hv
      exact nofun

/-- A run to a halt that stands last goes to the end. -/
theorem run_eq_execute {m : Machine} {is : List Instruction} (hm : m.halted = false)
    (ha : m.ahead = is ++ [.halt]) (hh : .halt ∉ is) : m.run = execute (is ++ [.halt]) m := by
  have hn : m.frame.program.code.size - m.frame.pc = (is ++ [Instruction.halt]).length := by
    rw [← ha, ahead, List.length_drop, Array.length_toList]
  rw [run, hn]
  clear hn
  induction is generalizing m with
  | nil =>
    have hi : m.hasInstructions = true := (hasInstructions_iff m).2 (by simp [ha])
    simp only [List.nil_append, List.length_singleton, runFor, hm, hi, step_of_ahead ha]
    rfl
  | cons i is ih =>
    have hi : m.hasInstructions = true := (hasInstructions_iff m).2 (by simp [ha])
    have hne : i ≠ .halt := fun e => hh (e ▸ List.mem_cons_self)
    have hk := keeps_perform m i
    have hhalt := halted_perform m hne
    rw [List.cons_append, List.length_cons, execute_cons]
    simp only [runFor, hm, hi, step_of_ahead ha, Outcome.andThen_assoc]
    cases hp : m.perform i with
    | raised f m' => rfl
    | done m' =>
      rw [hp] at hk hhalt
      exact ih (hhalt.trans hm) (ahead_advance hk ha) (fun h => hh (List.mem_cons_of_mem _ h))

/-- A run to a halt that stands last is as many steps as there are instructions. -/
theorem run_eq_steps {m : Machine} {is : List Instruction} (hm : m.halted = false)
    (ha : m.ahead = is ++ [.halt]) (hh : .halt ∉ is) : m.run = m.steps m.ahead.length := by
  rw [run_eq_execute hm ha hh, ha, steps_eq_execute (ha.trans (List.append_nil _).symm)]

end Machine
end ScriptDebug
