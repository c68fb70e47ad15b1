/-
# The machines that can come about

A machine is started with some program, with a receiver or without one. Then it
executes instructions and other programs run on top of the one that it runs; its
rest is given up; and whoever holds the machine binds names in its scopes and sets
properties of the global object. Every machine of a debugger that was started with
such a machine is one too, whatever is done to the debugger (`reachable_actAll`),
and so is every machine in the middle of a fragment.

Of the bindings one thing holds in all of them: no scope binds a name twice
(`Reachable.distinct`). The scopes and the globals change in four ways only
(`writes_perform`), and none of them puts a name in a second time.

Key definitions: `Machine.Reachable`, `Bindings.Distinct`, `Machine.Writes`, `Machine.Distinct`.
Key theorems: `Machine.reachable_evaluate`, `Debugger.reachable_actAll`,
`Machine.writes_perform`, `Machine.Reachable.distinct`.
-/
import ScriptDebug.Proofs.Debugger.Gates
import ScriptDebug.Proofs.Debugger.NextLine

namespace ScriptDebug

namespace Machine

/-- The machines that can come about. -/
inductive Reachable : Machine → Prop
  | start (p : Program) : Reachable (start p)
  | withReceiver (p : Program) (self : Value) : Reachable (withReceiver p self)
  | step {m : Machine} : Reachable m → Reachable m.step.machine
  | terminate {m : Machine} : Reachable m → Reachable m.terminate
  /-- Another program begins on top of the frame. -/
  | enter {m : Machine} (p : Program) (self : Value) : Reachable m → Reachable (m.enter p self)
  /-- The frame set aside last goes on, with the stack cut to some height. -/
  | leave {m back : Machine} (halted : Bool) (height : Nat) : Reachable m →
    m.resume? = some back → Reachable ({ back with halted }.truncate height)
  /-- A scope gets a binding that the program did not make. -/
  | bind {m : Machine} (i : ScopeId) (x : String) (v : Value) : Reachable m →
    Reachable { m with scopes := m.scopes.define i x v }
  /-- The global object gets a property that the program did not make. -/
  | setGlobal {m : Machine} (x : String) (v : Value) : Reachable m → Reachable (m.setGlobal x v)

/-! ### Runs and fragments -/

theorem reachable_runFor (n : Nat) {m : Machine} (h : m.Reachable) :
    (runFor n m).machine.Reachable := by
  induction n generalizing m with
  | zero => exact h
  | succ n ih =>
    unfold runFor
    split
    · exact Outcome.machine_andThen h.step fun _ _ hm => ih hm
    · exact h

/-- A fragment leaves a machine that can come about, and so does every instruction of it. -/
theorem reachable_evaluate {m : Machine} (h : m.Reachable) (text : String) :
    (m.evaluate text).machine.Reachable := by
  cases hp : m.fragmentProgram text with
  | error e =>
    rw [(evaluate_of_error hp).1]
    exact h
  | ok p =>
    have hran : (m.fragmentRun p).machine.Reachable := reachable_runFor _ (h.enter p m.self)
    have hleave := leaveFragment_fragmentRun m p
    unfold leaveFragment at hleave
    rw [(evaluate_of_ok hp).1]
    split at hleave
    · rename_i back hback
      rw [← Except.ok.inj hleave]
      exact hran.leave m.halted m.height hback
    · cases hleave

end Machine

/-! ### Debuggers -/

namespace Debugger

theorem reachable_stepOnce {d : Debugger} (h : d.machine.Reachable) :
    d.stepOnce.1.machine.Reachable := by
  have hstep := h.step
  cases hs : d.machine.step with
  | done m =>
    rw [hs] at hstep
    rw [(stepOnce_of_done hs).1]
    exact hstep
  | raised f m =>
    rw [hs] at hstep
    rw [(stepOnce_of_raised hs).1]
    exact hstep.terminate

section

variable {d : Debugger} (h : d.machine.Reachable)

include h

theorem reachable_next : d.next.1.machine.Reachable := by
  have hloop := stepToLine_induction (P := (·.machine.Reachable)) (fun _ => reachable_stepOnce)
    (d.setPhase .running).remaining (d.machine.frame.program.nextLine d.machine.frame.pc)
    (d := d.setPhase .running) h
  unfold next
  simp only
  split
  · exact hloop
  · exact h

theorem reachable_runOff : d.runOff.1.machine.Reachable := by
  unfold runOff
  split
  · exact runOn_induction (P := (·.machine.Reachable)) (fun _ => reachable_stepOnce) _ _ h
  · exact h

theorem reachable_runUpTo : d.runUpTo.1.machine.Reachable := by
  unfold runUpTo
  split
  · exact h
  · split
    · exact h
    · exact runOn_induction (P := (·.machine.Reachable)) (fun _ => reachable_stepOnce) _ _ h

theorem reachable_resume : d.resume.1.machine.Reachable := by
  have hoff : (d.setPhase .running).runOff.1.machine.Reachable :=
    reachable_runOff (d := d.setPhase .running) h
  unfold resume
  rcases ho : (d.setPhase .running).runOff with ⟨after, outcome⟩
  rw [ho] at hoff
  cases outcome with
  | ok reason => exact hoff
  | error e => exact hoff

theorem reachable_exec (text : String) : (d.exec text).1.machine.Reachable := by
  unfold exec
  split
  · exact h
  · exact Machine.reachable_evaluate h text

theorem reachable_act (a : Action) : (d.act a).1.machine.Reachable := by
  cases a with
  | command c =>
    cases c with
    | next => exact reachable_next (d := d.tell _) h
    | resume => exact reachable_resume (d := d.tell _) h
    | exec text => exact reachable_exec (d := d.tell _) h text
    | print x => exact ((d.tell _).machine_print x).symm ▸ h
    | stepIn | stepOut | list => exact h
  | setBreakpoint b => exact (d.machine_setBreakpoint b).symm ▸ h
  | clearBreakpoint b => exact (d.machine_clearBreakpoint b).symm ▸ h
  | reactivate => exact h
  | runToPause => exact reachable_runUpTo h

end

/-- **Whatever is done to a debugger**, its machine is one that can come about. -/
theorem reachable_actAll {d : Debugger} (h : d.machine.Reachable) (actions : List Action) :
    (d.actAll actions).1.machine.Reachable := by
  induction actions generalizing d with
  | nil => exact h
  | cons a actions ih => exact ih (reachable_act h a)

end Debugger

/-! ### No name twice -/

/-- No name has two entries. -/
def Bindings.Distinct (b : Bindings) : Prop := b.names.Nodup

theorem Bindings.distinct_empty : Bindings.empty.Distinct := List.nodup_nil

theorem Bindings.Distinct.put {b : Bindings} (h : b.Distinct) (x : String) (v : Value) :
    (b.put x v).Distinct := by
  unfold Distinct
  rw [names_put]
  split
  · exact h
  · rename_i hx
    exact List.nodup_append_comm.1 (List.nodup_cons.2 ⟨hx, h⟩)

namespace Machine

/-- What can become of the scopes and the globals at once. -/
inductive Writes (m m' : Machine) : Prop
  | nothing (hs : m'.scopes = m.scopes) (hg : m'.globals = m.globals)
  | binding (i : ScopeId) (x : String) (v : Value) (hs : m'.scopes = m.scopes.define i x v)
    (hg : m'.globals = m.globals)
  | property (x : String) (v : Value) (hs : m'.scopes = m.scopes)
    (hg : m'.globals = m.globals.put x v)
  | scope (hs : m'.scopes = m.scopes.grow) (hg : m'.globals = m.globals)

theorem writes_assign (m : Machine) (x : String) (v : Value) : m.Writes (m.assign x v) := by
  unfold assign
  split
  · exact .binding _ x v rfl rfl
  · exact .property x v rfl rfl

/-- An instruction writes one binding, sets one property or opens one scope, if anything. -/
theorem writes_perform (m : Machine) (i : Instruction) : m.Writes (m.perform i).machine := by
  cases i with
  | loadConst | loadName => simp only [perform]; split <;> exact .nothing rfl rfl
  | loadUndefined | loadNull | loadBool | loadThis | loadGlobalThis | pause | halt =>
    exact .nothing rfl rfl
  | storeName x =>
    simp only [perform]
    split
    · exact m.writes_assign x _
    · exact .nothing rfl rfl
  | defineLet x =>
    exact withTop_machine (.nothing rfl rfl) fun v _ _ _ => .binding _ x v rfl rfl
  | defineVar x => exact withTop_machine (.nothing rfl rfl) fun v _ _ _ => .property x v rfl rfl
  | neg | not | pop | saveResult =>
    exact withTop_machine (.nothing rfl rfl) fun _ _ _ _ => .nothing rfl rfl
  | binary op =>
    refine withTop_machine (.nothing rfl rfl) fun b _ _ _ => ?_
    refine withTop_machine (.nothing rfl rfl) fun a _ _ _ => ?_
    cases op.apply a b <;> exact .nothing rfl rfl
  | enterBlock => exact .scope rfl rfl
  | leaveBlock =>
    simp only [perform, leaveBlock?]
    cases m.frame.chain.around? <;> exact .nothing rfl rfl

/-- No scope binds a name twice, and no property is there twice. -/
structure Distinct (m : Machine) : Prop where
  scopes : ∀ i, (m.scopes.read i).Distinct
  globals : m.globals.Distinct

theorem distinct_start (p : Program) : (start p).Distinct where
  scopes i := by
    have hempty : Scopes.start.read i = .empty := by
      cases i <;> rfl
    exact hempty ▸ Bindings.distinct_empty
  globals := Bindings.distinct_empty

namespace Distinct

variable {m m' : Machine}

theorem of_eq (h : m.Distinct) (hs : m'.scopes = m.scopes) (hg : m'.globals = m.globals) :
    m'.Distinct :=
  ⟨hs ▸ h.scopes, hg ▸ h.globals⟩

theorem of_writes (h : m.Distinct) (hw : m.Writes m') : m'.Distinct := by
  cases hw with
  | nothing hs hg => exact h.of_eq hs hg
  | binding i x v hs hg =>
    refine ⟨fun j => ?_, hg ▸ h.globals⟩
    rw [hs]
    rcases m.scopes.read_define i j x v with hread | hread
    · exact hread ▸ h.scopes j
    · exact hread ▸ (h.scopes j).put x v
  | property x v hs hg => exact ⟨hs ▸ h.scopes, hg ▸ h.globals.put x v⟩
  | scope hs hg =>
    refine ⟨fun j => ?_, hg ▸ h.globals⟩
    rw [hs, Scopes.read_grow]
    exact h.scopes j

end Distinct

/-- **No scope ever binds a name twice.** -/
theorem Reachable.distinct {m : Machine} (h : m.Reachable) : m.Distinct := by
  induction h with
  | start p => exact distinct_start p
  | withReceiver p self => exact (distinct_start p).of_eq rfl rfl
  | step _ ih =>
    exact step_machine ih (fun i => ih.of_writes (writes_perform _ i)) fun _ h => h.of_eq rfl rfl
  | terminate _ ih => exact ih.of_eq rfl rfl
  | enter _ _ _ ih => exact ih.of_eq rfl rfl
  | leave halted height _ hback ih =>
    unfold resume? at hback
    split at hback
    · cases hback
    · cases hback
      exact ih.of_eq rfl rfl
  | bind i x v _ ih => exact ih.of_writes (.binding i x v rfl rfl)
  | setGlobal x v _ ih => exact ih.of_writes (.property x v rfl rfl)

end Machine
end ScriptDebug
