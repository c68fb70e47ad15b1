/-
# Machines that no program can tell apart

Two machines are alike if they differ at most in where their scopes are stored:
the frame, the stack, the halt flag and the frames set aside are the same, and
so is the world that a script sees. Alike machines do the same, with the same
faults, and stay alike (`Machine.step_alike`).

Key definitions: `Machine.Alike`, `Outcome.Alike`.
Key theorems: `Machine.perform_alike`, `Machine.step_alike`.
-/
import ScriptDebug.Proofs.Meaning

namespace ScriptDebug

/-- The machines differ at most in the identities of their scopes. -/
structure Machine.Alike (a b : Machine) : Prop where
  program : b.frame.program = a.frame.program
  pc : b.frame.pc = a.frame.pc
  base : b.frame.base = a.frame.base
  args : b.frame.args = a.frame.args
  stack : b.stack = a.stack
  halted : b.halted = a.halted
  saved : b.saved = a.saved
  world : b.world = a.world

/-- Both are done or both raised the same fault, in machines that are alike. -/
inductive Outcome.Alike : Outcome → Outcome → Prop
  | done {a b : Machine} : a.Alike b → Alike (.done a) (.done b)
  | raised {a b : Machine} (f : Fault) : a.Alike b → Alike (.raised f a) (.raised f b)

theorem Outcome.Alike.andThen {o o' : Outcome} {k k' : Machine → Outcome} (h : o.Alike o')
    (hk : ∀ a b, a.Alike b → (k a).Alike (k' b)) : (o.andThen k).Alike (o'.andThen k') := by
  cases h with
  | done hab => exact hk _ _ hab
  | raised f hab => exact .raised f hab

namespace Machine

namespace Alike

variable {a b c : Machine}

theorem refl (a : Machine) : a.Alike a := ⟨rfl, rfl, rfl, rfl, rfl, rfl, rfl, rfl⟩

theorem symm (h : a.Alike b) : b.Alike a :=
  ⟨h.program.symm, h.pc.symm, h.base.symm, h.args.symm, h.stack.symm, h.halted.symm, h.saved.symm,
    h.world.symm⟩

theorem trans (h : a.Alike b) (h' : b.Alike c) : a.Alike c :=
  ⟨h'.program.trans h.program, h'.pc.trans h.pc, h'.base.trans h.base, h'.args.trans h.args,
    h'.stack.trans h.stack, h'.halted.trans h.halted, h'.saved.trans h.saved,
    h'.world.trans h.world⟩

/-- Another world and the same stack in both. -/
theorem of_world (h : a.Alike b) {a' b' : Machine} (hk : a.Keeps a') (hk' : b.Keeps b')
    (hs : b'.stack = a'.stack) (hh : b'.halted = a'.halted) (hw : b'.world = a'.world) :
    a'.Alike b' where
  program := hk'.program.trans (h.program.trans hk.program.symm)
  pc := hk'.pc.trans (h.pc.trans hk.pc.symm)
  base := hk'.base.trans (h.base.trans hk.base.symm)
  args := hk'.args.trans (h.args.trans hk.args.symm)
  stack := hs
  halted := hh
  saved := hk'.saved.trans (h.saved.trans hk.saved.symm)
  world := hw

theorem hasInstructions (h : a.Alike b) : b.hasInstructions = a.hasInstructions := by
  rw [Machine.hasInstructions, Machine.hasInstructions, h.program, h.pc]

theorem floor (h : a.Alike b) : b.floor = a.floor := by rw [Machine.floor, h.base]; rfl

theorem self (h : a.Alike b) : b.self = a.self := by
  unfold Machine.self receiver?
  rw [h.base, h.stack]

theorem push (h : a.Alike b) (v : Value) : (a.push v).Alike (b.push v) :=
  h.of_world (keeps_push a v) (keeps_push b v) (congrArg (v :: ·) h.stack) h.halted h.world

theorem define (h : a.Alike b) (ha : a.WellScoped) (hb : b.WellScoped) (x : String) (v : Value) :
    (a.define x v).Alike (b.define x v) :=
  h.of_world (.of_stack rfl rfl rfl rfl rfl rfl) (.of_stack rfl rfl rfl rfl rfl rfl) h.stack
    h.halted (by rw [world_define ha, world_define hb, h.world])

theorem setGlobal (h : a.Alike b) (x : String) (v : Value) :
    (a.setGlobal x v).Alike (b.setGlobal x v) :=
  h.of_world (.of_stack rfl rfl rfl rfl rfl rfl) (.of_stack rfl rfl rfl rfl rfl rfl) h.stack
    h.halted (by rw [world_setGlobal, world_setGlobal, h.world])

theorem assign (h : a.Alike b) (ha : a.WellScoped) (hb : b.WellScoped) (x : String) (v : Value) :
    (a.assign x v).Alike (b.assign x v) := by
  have hw : (b.assign x v).world = (a.assign x v).world := by
    rw [world_assign ha, world_assign hb, h.world]
  refine h.of_world (keeps_assign a x v) (keeps_assign b x v) ?_ ?_ hw
  · rw [stack_assign, stack_assign, h.stack]
  · rw [halted_assign, halted_assign, h.halted]

theorem enterBlock (h : a.Alike b) : a.enterBlock.Alike b.enterBlock :=
  h.of_world (.of_stack rfl rfl rfl rfl rfl rfl) (.of_stack rfl rfl rfl rfl rfl rfl) h.stack
    h.halted (by rw [world_enterBlock, world_enterBlock, h.world])

/-- As many scopes are visible in both, so one is around the innermost in both or in none. -/
theorem leaveBlock (h : a.Alike b) :
    (a.leaveBlock? = none ∧ b.leaveBlock? = none) ∨
      ∃ a' b', a.leaveBlock? = some a' ∧ b.leaveBlock? = some b' ∧ a'.Alike b' := by
  have hlen : b.frame.chain.outer.length = a.frame.chain.outer.length := by
    have hscopes := congrArg (fun w => w.scopes.length) h.world
    simpa only [Machine.world, Chain.ids, List.length_map, List.length_cons,
      Nat.add_right_cancel_iff] using hscopes
  cases ha : a.frame.chain.outer with
  | nil =>
    have hb : b.frame.chain.outer = [] := List.eq_nil_of_length_eq_zero (by rw [hlen, ha]; rfl)
    exact Or.inl ⟨by simp only [leaveBlock?, Chain.around?, ha, Option.map_none],
      by simp only [leaveBlock?, Chain.around?, hb, Option.map_none]⟩
  | cons i is =>
    rw [ha] at hlen
    obtain ⟨j, js, hb⟩ := List.exists_cons_of_length_eq_add_one hlen
    have ha' : a.leaveBlock? = some { a with frame := { a.frame with chain := ⟨i, is⟩ } } := by
      simp only [leaveBlock?, Chain.around?, ha, Option.map_some]
    have hb' : b.leaveBlock? = some { b with frame := { b.frame with chain := ⟨j, js⟩ } } := by
      simp only [leaveBlock?, Chain.around?, hb, Option.map_some]
    refine Or.inr ⟨_, _, ha', hb', ?_⟩
    exact ⟨h.program, h.pc, h.base, h.args, h.stack, h.halted, h.saved,
      by rw [world_leaveBlock ha', world_leaveBlock hb', h.world]⟩

/-- Taking off the top value. -/
theorem withTop (h : a.Alike b) (ha : a.WellScoped) (hb : b.WellScoped)
    {k k' : Value → Machine → Outcome}
    (hk : ∀ (v : Value) (a b : Machine), a.Alike b → a.WellScoped → b.WellScoped →
      (k v a).Alike (k' v b)) : (a.withTop k).Alike (b.withTop k') := by
  have hheight : b.height = a.height := congrArg List.length h.stack
  unfold Machine.withTop pop?
  rw [h.stack, h.floor, hheight]
  cases hs : a.stack with
  | nil => exact .raised _ h
  | cons v rest =>
    by_cases hlt : a.floor < a.height
    · simp only [if_pos hlt]
      exact hk v _ _ ⟨h.program, h.pc, h.base, h.args, rfl, h.halted, h.saved, h.world⟩
        ⟨ha.nodup, ha.known⟩ ⟨hb.nodup, hb.known⟩
    · simp only [if_neg hlt]
      exact .raised _ h

end Alike

/-- **Alike machines do the same.** -/
theorem perform_alike {a b : Machine} (h : a.Alike b) (ha : a.WellScoped) (hb : b.WellScoped)
    (i : Instruction) : (a.perform i).Alike (b.perform i) := by
  cases i with
  | loadConst j =>
    simp only [perform, h.program]
    cases a.frame.program.constants[j]? with
    | some v => exact .done (h.push v)
    | none => exact .raised _ h
  | loadName x =>
    simp only [perform, lookup?_eq, h.world]
    cases a.world.lookup? x with
    | some v => exact .done (h.push v)
    | none => exact .raised _ h
  | loadUndefined | loadNull | loadBool | loadGlobalThis => exact .done (h.push _)
  | loadThis =>
    simp only [perform, h.self]
    exact .done (h.push _)
  | storeName x =>
    simp only [perform, h.stack]
    cases a.stack with
    | nil => exact .raised _ h
    | cons v rest => exact .done (h.assign ha hb x v)
  | defineLet x =>
    exact h.withTop ha hb fun v a b hab ha hb => .done (hab.define ha hb x v)
  | defineVar x => exact h.withTop ha hb fun v a b hab _ _ => .done (hab.setGlobal x v)
  | neg | not => exact h.withTop ha hb fun v a b hab _ _ => .done (hab.push _)
  | binary op =>
    refine h.withTop ha hb fun r a b hab ha hb => hab.withTop ha hb fun l a b hab _ _ => ?_
    cases op.apply l r with
    | ok v => exact .done (hab.push v)
    | error fault => exact .raised fault hab
  | pop => exact h.withTop ha hb fun _ a b hab _ _ => .done hab
  | saveResult =>
    refine h.withTop ha hb fun v a b hab _ _ => .done ?_
    exact ⟨hab.program, hab.pc, hab.base, hab.args, hab.stack, hab.halted, hab.saved,
      congrArg (·.complete v) hab.world⟩
  | enterBlock => exact .done h.enterBlock
  | leaveBlock =>
    simp only [perform]
    obtain ⟨hn, hn'⟩ | ⟨a', b', hs, hs', hab⟩ := h.leaveBlock
    · rw [hn, hn']
      exact .raised _ h
    · rw [hs, hs']
      exact .done hab
  | pause => exact .done h
  | halt =>
    exact .done ⟨h.program, h.pc, h.base, h.args, h.stack, rfl, h.saved, h.world⟩

theorem advance_alike {a b : Machine} (h : a.Alike b) : a.advance.Alike b.advance :=
  ⟨h.program, congrArg (· + 1) h.pc, h.base, h.args, h.stack, h.halted, h.saved, h.world⟩

theorem step_alike {a b : Machine} (h : a.Alike b) (ha : a.WellScoped) (hb : b.WellScoped) :
    a.step.Alike b.step := by
  unfold step
  rw [h.program, h.pc]
  cases a.frame.program.code[a.frame.pc]? with
  | none => exact .raised _ h
  | some i => exact (perform_alike h ha hb i).andThen fun _ _ hab => .done (advance_alike hab)

theorem wellScoped_step {m : Machine} (h : m.WellScoped) : m.step.machine.WellScoped :=
  step_machine h (fun i => wellScoped_perform h i) fun _ hi => ⟨hi.nodup, hi.known⟩

end Machine
end ScriptDebug
