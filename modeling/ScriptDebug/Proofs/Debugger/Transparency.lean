/-
# Debugging does not change the program

Whatever a user does to a paused program, short of fragments that assign or
declare a `var`, the machine of the debugger is one that single steps from the
start reach (`Tracks`): each step of the debugger is a step of the machine, the
two loops of the debugger are made of such steps, and everything else leaves the
machine as it is or makes one like it.

So a session that gets to the end of the program ends as a run without a
debugger does, and it reports a fault where that run raises one, once
(`debugging_transparent`). A fault gives the rest of the program up, which is
why nothing runs after it.

Key definitions: `Action`, `Debugger.act`, `Debugger.actAll`, `Tracks`, `Follows`.
Key theorems: `follows_stepOnce`, `follows_runOn`, `follows_act`, `debugging_transparent`.
-/
import ScriptDebug.Debugger.Command
import ScriptDebug.Proofs.Fragment.Quiet

namespace ScriptDebug

/-! ### What can be done to a debugger -/

/-- What a user does between two pauses. -/
inductive Action where
  | command (c : Command)
  | setBreakpoint (b : Breakpoint)
  | clearBreakpoint (b : Breakpoint)
  | reactivate
  | runToPause

/-- The fragments that are run assign nothing and declare no global property. -/
def Action.Quiet : Action → Prop
  | .command (.exec text) => QuietText text
  | _ => True

/-- The error of an outcome. -/
def errorOf {α : Type} : Except DebugError α → Option DebugError
  | .ok _ => none
  | .error e => some e

namespace Debugger

/-- Does one thing, and tells the error that was reported. -/
def act (d : Debugger) : Action → Debugger × Option DebugError
  | .command c => ((d.run c).1, (d.run c).2.error)
  | .setBreakpoint b => ((d.setBreakpoint b).1, errorOf (d.setBreakpoint b).2)
  | .clearBreakpoint b => ((d.clearBreakpoint b).1, errorOf (d.clearBreakpoint b).2)
  | .reactivate => (d.reactivate, none)
  | .runToPause => (d.runToPause.1, errorOf d.runToPause.2)

/-- Does things one after the other, and tells the errors in their order. -/
def actAll (d : Debugger) : List Action → Debugger × List DebugError
  | [] => (d, [])
  | a :: as => (((d.act a).1.actAll as).1, (d.act a).2.toList ++ ((d.act a).1.actAll as).2)

end Debugger

/-- The fault of the program that an error tells of. -/
def DebugError.execution? : DebugError → Option Fault
  | .execution f => some f
  | _ => none

/-- The faults of the program among errors. -/
def executions (es : List DebugError) : List Fault := es.filterMap DebugError.execution?

theorem executions_append (es es' : List DebugError) :
    executions (es ++ es') = executions es ++ executions es' :=
  List.filterMap_append

theorem executions_singleton {e : DebugError} (h : e.execution? = none) : executions [e] = [] := by
  rw [executions, List.filterMap_cons_none h, List.filterMap_nil]

/-! ### Where the machine of a debugger can be -/

/-- The machine of a debugger for the program `p`, when the faults of the program that were reported
are `faults`: it is like the one after some steps from the start; or the run raised the fault, the
rest was given up, and the world is that of the fault. -/
inductive Tracks (p : Program) (m : Machine) : List Fault → Prop
  | running {n : Nat} {fresh : Machine} : (Machine.start p).steps n = .done fresh →
    fresh.WellScoped → fresh.Alike m → m.WellScoped → Tracks p m []
  | failed {f : Fault} {fresh : Machine} : (Machine.start p).run = .raised f fresh →
    m.hasInstructions = false → m.world = fresh.world → m.WellScoped → Tracks p m [f]

namespace Tracks

variable {p : Program} {m m' : Machine} {faults : List Fault}

theorem start (p : Program) : Tracks p (.start p) [] :=
  .running (n := 0) rfl (Machine.wellScoped_start p) (.refl _) (Machine.wellScoped_start p)

/-- A machine that is like the one before. -/
theorem of_alike (h : Tracks p m faults) (ha : m.Alike m') (hs : m'.WellScoped) :
    Tracks p m' faults := by
  cases h with
  | running hn hf hm _ => exact .running hn hf (hm.trans ha) hs
  | failed hr hi hw _ =>
    exact .failed hr (ha.hasInstructions.trans hi) (ha.world.trans hw) hs

/-- After a fault no instructions are left. -/
theorem eq_nil (h : Tracks p m faults) (hi : m.hasInstructions = true) : faults = [] := by
  cases h with
  | running => rfl
  | failed _ hn _ _ =>
    rw [hn] at hi
    cases hi

/-- A machine with no fault is as single steps leave it, as many as its counter says. -/
theorem steps_eq (h : Tracks p m []) :
    ∃ fresh, (Machine.start p).steps m.frame.pc = .done fresh ∧ fresh.Alike m := by
  cases h with
  | @running n fresh hn _ ha _ =>
    have hpc : m.frame.pc = n := ha.pc.trans (Machine.pc_of_begins (Machine.begins_start p) hn)
    exact ⟨fresh, hpc ▸ hn, ha⟩

end Tracks

/-- Doing something to a debugger that has reported `faults` so far keeps its machine where it can
be, with the fault reported now, and never puts the counter back. -/
structure Follows (p : Program) (faults : List Fault) (d d' : Debugger) (e : Option DebugError) :
    Prop where
  tracks : Tracks p d'.machine (faults ++ executions e.toList)
  pc : d.machine.frame.pc ≤ d'.machine.frame.pc

namespace Follows

variable {p : Program} {faults : List Fault} {d d' d'' : Debugger} {e : Option DebugError}

/-- The machine is as it was or like it, and no fault of the program is reported. -/
theorem of_alike (h : Tracks p d.machine faults) (ha : d.machine.Alike d'.machine)
    (hs : d'.machine.WellScoped) (he : executions e.toList = []) : Follows p faults d d' e := by
  refine ⟨?_, Nat.le_of_eq ha.pc.symm⟩
  rw [he, List.append_nil]
  exact h.of_alike ha hs

theorem of_machine (h : Tracks p d.machine faults) (hm : d'.machine = d.machine)
    (he : executions e.toList = []) : Follows p faults d d' e := by
  refine ⟨?_, Nat.le_of_eq (hm ▸ rfl)⟩
  rw [he, List.append_nil, hm]
  exact h

theorem trans (h : Follows p faults d d' none) (h' : Follows p faults d' d'' e) :
    Follows p faults d d'' e :=
  ⟨h'.tracks, Nat.le_trans h.pc h'.pc⟩

/-- What is written down beside the machine does not matter. -/
theorem congr (h : Follows p faults d d' e) {c c' : Debugger} (hc : c.machine = d.machine)
    (hc' : c'.machine = d'.machine) : Follows p faults c c' e :=
  ⟨hc' ▸ h.tracks, hc ▸ hc' ▸ h.pc⟩

end Follows

/-! ### Single steps -/

namespace Debugger

theorem machine_tellInstruction (d : Debugger) : d.tellInstruction.machine = d.machine := by
  unfold tellInstruction
  split <;> rfl

theorem stepOnce_of_done {d : Debugger} {m : Machine} (h : d.machine.step = .done m) :
    d.stepOnce.1.machine = m ∧ d.stepOnce.2 = none := by
  unfold stepOnce stepMachine
  rw [← d.machine_tellInstruction] at h
  simp only [h]
  exact ⟨rfl, rfl⟩

theorem stepOnce_of_raised {d : Debugger} {m : Machine} {f : Fault}
    (h : d.machine.step = .raised f m) :
    d.stepOnce.1.machine = m.terminate ∧ d.stepOnce.2 = some (.execution f) := by
  unfold stepOnce stepMachine
  rw [← d.machine_tellInstruction] at h
  simp only [h]
  exact ⟨rfl, rfl⟩

end Debugger

/-- The fresh machine takes the step too. -/
theorem Tracks.step_done {p : Program} {m m' : Machine} (h : Tracks p m [])
    (hd : m.step = .done m') : Tracks p m' [] := by
  cases h with
  | @running n fresh hn hf ha hs =>
    have hstep := Machine.step_alike ha hf hs
    have hf' := Machine.wellScoped_step hf
    have hs' := Machine.wellScoped_step hs
    rw [hd] at hstep hs'
    cases hfresh : fresh.step with
    | raised f fresh' =>
      rw [hfresh] at hstep
      cases hstep
    | done fresh' =>
      rw [hfresh] at hstep hf'
      cases hstep with
      | done ha' =>
        have hn' : (Machine.start p).steps (n + 1) = .done fresh' := by
          rw [Machine.steps_add, hn, Outcome.andThen_done, Machine.steps_one, hfresh]
        exact .running hn' hf' ha' hs'

/-- The fresh machine raises the fault too, and so its run ends there. -/
theorem Tracks.step_raised {p : Program} {V : Vocabulary} {code : List Instruction}
    (hp : p.Shaped V code) {m m' : Machine} {f : Fault} (h : Tracks p m [])
    (hi : m.hasInstructions = true) (hd : m.step = .raised f m') : Tracks p m'.terminate [f] := by
  cases h with
  | @running n fresh hn hf ha hs =>
    have hstep := Machine.step_alike ha hf hs
    have hs' := Machine.wellScoped_step hs
    rw [hd] at hstep hs'
    cases hfresh : fresh.step with
    | done fresh' =>
      rw [hfresh] at hstep
      cases hstep
    | raised f' fresh' =>
      rw [hfresh] at hstep
      cases hstep with
      | raised _ ha' =>
        have hr := Machine.run_of_raised (Machine.begins_start p) hp rfl hn
          (ha.hasInstructions.symm.trans hi) hfresh
        have hended : m'.terminate.hasInstructions = false := decide_eq_false (Nat.lt_irrefl _)
        exact .failed hr hended ha'.world ⟨hs'.nodup, hs'.known⟩

section

variable {p : Program} {V : Vocabulary} {code : List Instruction} (hp : p.Shaped V code)

include hp

/-- **A step of the debugger is a step of the machine.** -/
theorem follows_stepOnce {d : Debugger} (h : Tracks p d.machine []) (hi : d.canRun = true) :
    Follows p [] d d.stepOnce.1 d.stepOnce.2 := by
  cases hd : d.machine.step with
  | done m =>
    obtain ⟨hm, he⟩ := Debugger.stepOnce_of_done hd
    have hpc := Machine.pc_step hd
    refine ⟨?_, ?_⟩
    · rw [hm, he]
      exact h.step_done hd
    · rw [hm]
      omega
  | raised f m =>
    obtain ⟨hm, he⟩ := Debugger.stepOnce_of_raised hd
    have hframe := d.machine.sameFrame_step
    rw [hd] at hframe
    have hend : m.terminate.frame.pc = d.machine.frame.program.code.size :=
      congrArg (fun q => q.code.size) hframe.program
    have hlt : d.machine.frame.pc < d.machine.frame.program.code.size := of_decide_eq_true hi
    refine ⟨?_, ?_⟩
    · rw [hm, he]
      exact h.step_raised hp hi hd
    · rw [hm]
      omega

/-! ### The loops -/

/-- The loop that goes on to a stop point. -/
theorem follows_runOn (n line : Nat) {d : Debugger} (h : Tracks p d.machine [])
    (hi : d.canRun = true) :
    Follows p [] d (Debugger.runOn n line d).1 (errorOf (Debugger.runOn n line d).2) := by
  induction n generalizing line d with
  | zero => exact .of_machine h rfl rfl
  | succ n ih =>
    have hstep := follows_stepOnce hp h hi
    unfold Debugger.runOn
    rcases hd : d.stepOnce with ⟨d', _ | e⟩
    · rw [hd] at hstep
      simp only
      split
      · exact hstep
      · rename_i hrun
        split
        · exact hstep
        · refine hstep.trans (ih d'.line hstep.tracks ?_)
          simpa using hrun
    · rw [hd] at hstep
      exact hstep

/-- The loop that goes on to a line. -/
theorem follows_stepToLine (n target : Nat) {d : Debugger} (h : Tracks p d.machine [])
    (hi : d.canRun = true) :
    Follows p [] d (Debugger.stepToLine n target d).1 (Debugger.stepToLine n target d).2 := by
  induction n generalizing d with
  | zero => exact .of_machine h rfl rfl
  | succ n ih =>
    have hstep := follows_stepOnce hp h hi
    unfold Debugger.stepToLine
    rcases hd : d.stepOnce with ⟨d', _ | e⟩
    · rw [hd] at hstep
      simp only
      split
      · rename_i hrun
        simp only [Bool.and_eq_true] at hrun
        exact hstep.trans (ih hstep.tracks hrun.1.1)
      · exact hstep
    · rw [hd] at hstep
      exact hstep

/-! ### Commands -/

theorem follows_next {d : Debugger} {faults : List Fault} (h : Tracks p d.machine faults) :
    Follows p faults d d.next.1 d.next.2.error := by
  let began := d.setPhase .running
  let target := d.machine.frame.program.nextLine d.machine.frame.pc
  let r := if began.canRun then Debugger.stepToLine began.remaining target began else (began, none)
  have hr : Follows p faults began r.1 r.2 := by
    by_cases hi : began.canRun = true
    · obtain rfl := h.eq_nil hi
      simp only [r, if_pos hi]
      exact follows_stepToLine hp _ _ h hi
    · simp only [r, if_neg hi]
      exact .of_machine h rfl rfl
  exact hr.congr rfl rfl

theorem follows_runOff {d : Debugger} {faults : List Fault} (h : Tracks p d.machine faults) :
    Follows p faults d d.runOff.1 (errorOf d.runOff.2) := by
  unfold Debugger.runOff
  by_cases hi : d.canRun = true
  · obtain rfl := h.eq_nil hi
    simp only [if_pos hi]
    exact follows_runOn hp _ _ h hi
  · simp only [if_neg hi]
    exact .of_machine h rfl rfl

theorem follows_runUpTo {d : Debugger} {faults : List Fault} (h : Tracks p d.machine faults) :
    Follows p faults d d.runUpTo.1 (errorOf d.runUpTo.2) := by
  unfold Debugger.runUpTo
  by_cases hi : d.canRun = true
  · obtain rfl := h.eq_nil hi
    simp only [hi, Bool.not_true, Bool.false_eq_true, if_false]
    split
    · exact .of_machine h rfl rfl
    · exact follows_runOn hp _ _ h hi
  · simp only [hi, Bool.not_false, if_true]
    exact .of_machine h rfl rfl

theorem follows_resume {d : Debugger} {faults : List Fault} (h : Tracks p d.machine faults) :
    Follows p faults d d.resume.1 d.resume.2.error := by
  have hr := follows_runOff hp (d := d.setPhase .running) h
  unfold Debugger.resume
  rcases ho : (d.setPhase .running).runOff with ⟨after, outcome⟩
  rw [ho] at hr
  cases outcome with
  | ok reason => exact hr.congr rfl rfl
  | error e => exact hr.congr rfl rfl

theorem follows_runToPause {d : Debugger} {faults : List Fault} (h : Tracks p d.machine faults) :
    Follows p faults d d.runToPause.1 (errorOf d.runToPause.2) := by
  have hr := follows_runUpTo hp h
  unfold Debugger.runToPause
  rcases ho : d.runUpTo with ⟨after, outcome⟩
  rw [ho] at hr
  cases outcome with
  | ok reason => exact hr.congr rfl rfl
  | error e => exact hr.congr rfl rfl

end

/-- A fragment's own error is no fault of the program. -/
theorem execution?_of_evaluate {m : Machine} {text : String} {e : DebugError}
    (h : (m.evaluate text).outcome = .error e) : e.execution? = none := by
  cases hf : m.fragmentProgram text with
  | error err =>
    rw [(Machine.evaluate_of_error hf).2] at h
    cases h
    rfl
  | ok p =>
    rw [(Machine.evaluate_of_ok hf).2] at h
    unfold fragmentOutcome at h
    split at h <;> cases h <;> rfl

theorem follows_exec {p : Program} {d : Debugger} {faults : List Fault} {text : String}
    (h : Tracks p d.machine faults) (hq : QuietText text) :
    Follows p faults d (d.exec text).1 (d.exec text).2.error := by
  have hs : d.machine.WellScoped := by
    cases h <;> assumption
  obtain ⟨ha, hs'⟩ := Machine.evaluate_alike hq hs
  unfold Debugger.exec
  split
  · exact .of_machine h rfl rfl
  · simp only [Debugger.evaluate]
    cases ho : (d.machine.evaluate text).outcome with
    | ok v => exact .of_alike h ha hs' rfl
    | error e => exact .of_alike h ha hs' (executions_singleton (execution?_of_evaluate ho))

/-- To look a name up leaves the machine alone. -/
theorem Debugger.machine_print (d : Debugger) (x : String) : (d.print x).1.machine = d.machine := by
  have hresolve : (d.resolve x).1.machine = d.machine := by
    unfold resolve
    simp only
    split <;> rfl
  unfold print
  split
  · rfl
  · exact hresolve

theorem follows_print {p : Program} {d : Debugger} {faults : List Fault} (x : String)
    (h : Tracks p d.machine faults) : Follows p faults d (d.print x).1 (d.print x).2.error := by
  have he : executions (d.resolve x).2.error.toList = [] := by
    unfold Debugger.resolve Machine.resolve
    split
    · rfl
    · split
      · rfl
      · split <;> rfl
  refine .of_machine h (d.machine_print x) ?_
  unfold Debugger.print
  split
  · rfl
  · exact he

/-- Whether a breakpoint is there is no fault of the program. -/
theorem execution?_of_set {r : Breakpoints} {b : Breakpoint} {e : DebugError}
    (h : r.set b = .error e) : e.execution? = none := by
  unfold Breakpoints.set at h
  split at h <;> cases h
  rfl

theorem execution?_of_clear {r : Breakpoints} {b : Breakpoint} {e : DebugError}
    (h : r.clear b = .error e) : e.execution? = none := by
  unfold Breakpoints.clear at h
  split at h
  · cases h
    rfl
  · split at h <;> cases h
    rfl

theorem follows_setBreakpoint {p : Program} {d : Debugger} {faults : List Fault} (b : Breakpoint)
    (h : Tracks p d.machine faults) :
    Follows p faults d (d.setBreakpoint b).1 (errorOf (d.setBreakpoint b).2) := by
  unfold Debugger.setBreakpoint
  cases hb : d.breakpoints.set b with
  | ok r => exact .of_machine h rfl rfl
  | error e => exact .of_machine h rfl (executions_singleton (execution?_of_set hb))

theorem follows_clearBreakpoint {p : Program} {d : Debugger} {faults : List Fault} (b : Breakpoint)
    (h : Tracks p d.machine faults) :
    Follows p faults d (d.clearBreakpoint b).1 (errorOf (d.clearBreakpoint b).2) := by
  unfold Debugger.clearBreakpoint
  cases hb : d.breakpoints.clear b with
  | ok r => exact .of_machine h rfl rfl
  | error e => exact .of_machine h rfl (executions_singleton (execution?_of_clear hb))

/-- **Whatever is done to a debugger**, short of fragments that change something, its machine stays
where single steps lead. -/
theorem follows_act {p : Program} {V : Vocabulary} {code : List Instruction} (hp : p.Shaped V code)
    {d : Debugger} {faults : List Fault} (h : Tracks p d.machine faults) {a : Action}
    (hq : a.Quiet) : Follows p faults d (d.act a).1 (d.act a).2 := by
  cases a with
  | command c =>
    cases c with
    | next => exact (follows_next hp (d := d.tell _) h).congr rfl rfl
    | resume => exact (follows_resume hp (d := d.tell _) h).congr rfl rfl
    | stepIn => exact .of_machine h rfl rfl
    | stepOut => exact .of_machine h rfl rfl
    | exec text => exact (follows_exec (d := d.tell _) h hq).congr rfl rfl
    | print x => exact (follows_print (d := d.tell _) x h).congr rfl rfl
    | list => exact .of_machine h rfl rfl
  | setBreakpoint b => exact follows_setBreakpoint b h
  | clearBreakpoint b => exact follows_clearBreakpoint b h
  | reactivate => exact .of_machine h rfl rfl
  | runToPause => exact follows_runToPause hp h

/-! ### Whole sessions -/

theorem Debugger.actAll_append (as as' : List Action) (d : Debugger) :
    d.actAll (as ++ as') =
      (((d.actAll as).1.actAll as').1, (d.actAll as).2 ++ ((d.actAll as).1.actAll as').2) := by
  induction as generalizing d with
  | nil => rfl
  | cons a as ih =>
    simp only [List.cons_append, Debugger.actAll]
    rw [ih, List.append_assoc]

section

variable {p : Program} {V : Vocabulary} {code : List Instruction} (hp : p.Shaped V code)

include hp

/-- The machine stays where single steps lead, with the faults that were reported on the way. -/
theorem tracks_actAll {d : Debugger} {faults : List Fault} (h : Tracks p d.machine faults)
    {as : List Action} (hq : ∀ a ∈ as, a.Quiet) :
    Tracks p (d.actAll as).1.machine (faults ++ executions (d.actAll as).2) ∧
      d.machine.frame.pc ≤ (d.actAll as).1.machine.frame.pc := by
  induction as generalizing d faults with
  | nil =>
    refine ⟨?_, Nat.le_refl _⟩
    exact (List.append_nil faults).symm ▸ h
  | cons a as ih =>
    obtain ⟨hqa, hqs⟩ := List.forall_mem_cons.1 hq
    have hf := follows_act hp h hqa
    obtain ⟨ht, hle⟩ := ih hf.tracks hqs
    refine ⟨?_, Nat.le_trans hf.pc hle⟩
    rw [Debugger.actAll, executions_append, ← List.append_assoc]
    exact ht

/-- A machine with no instructions left is where the run of the program ends. -/
theorem Tracks.run_eq {m : Machine} {faults : List Fault} (h : Tracks p m faults)
    (hi : m.hasInstructions = false) :
    (∃ fresh, (Machine.start p).run = .done fresh ∧ faults = [] ∧ fresh.Alike m) ∨
      ∃ f fresh, (Machine.start p).run = .raised f fresh ∧ faults = [f] ∧ m.world = fresh.world := by
  cases h with
  | @running n fresh hn _ ha _ =>
    have hr := Machine.run_of_ended (Machine.begins_start p) hp rfl hn
      (ha.hasInstructions.symm.trans hi)
    exact Or.inl ⟨fresh, hr, rfl, ha⟩
  | @failed f fresh hr _ hw _ => exact Or.inr ⟨f, fresh, hr, rfl, hw⟩

end

/-- What the debugger `d` of the program `p` has done after `actions`. The counter never
goes back. As long as no fault of the program was reported, the machine is like the one after as many
single steps from the start as the counter says. When no instructions are left, the run without a
debugger ended like this too: without a fault, and none was reported, or with a fault, which was
reported once, in the same world. -/
structure Debugger.Transparent (p : Program) (d : Debugger) (actions : List Action) : Prop where
  pc : ∀ before after, actions = before ++ after →
    (d.actAll before).1.machine.frame.pc ≤ (d.actAll actions).1.machine.frame.pc
  steps : executions (d.actAll actions).2 = [] →
    ∃ fresh, (Machine.start p).steps (d.actAll actions).1.machine.frame.pc = .done fresh ∧
      fresh.Alike (d.actAll actions).1.machine
  ends : (d.actAll actions).1.canRun = false →
    (∃ fresh, (Machine.start p).run = .done fresh ∧ executions (d.actAll actions).2 = [] ∧
      fresh.Alike (d.actAll actions).1.machine) ∨
    ∃ f fresh, (Machine.start p).run = .raised f fresh ∧ executions (d.actAll actions).2 = [f] ∧
      (d.actAll actions).1.machine.world = fresh.world

/-- **Debugging does not change the program.** Whatever is done to the debugger of a compiled script,
short of fragments that assign or declare a `var`, the program goes the way it goes by itself. -/
theorem debugging_transparent {source : Source} {g : Bool} {p : Program}
    (h : Program.ofSource source ⟨false, g⟩ = .ok p) (options : ListOptions)
    {actions : List Action} (hq : ∀ a ∈ actions, a.Quiet) :
    (Debugger.start (.start p) options).Transparent p actions := by
  obtain ⟨body, hbody, rfl⟩ := Program.ofSource_eq_ok.1 h
  have hp := Program.shaped_ofSource ⟨false, g⟩ hbody
  have htracks {as : List Action} (hqs : ∀ a ∈ as, a.Quiet) :=
    tracks_actAll hp (d := Debugger.start (.start _) options) (.start _) hqs
  have hm := (htracks hq).1
  rw [List.nil_append] at hm
  refine ⟨fun before after hsplit => ?_, fun hnil => ?_, fun hi => ?_⟩
  · subst hsplit
    have hbefore := fun a ha => hq a (List.mem_append_left after ha)
    have hafter := fun a ha => hq a (List.mem_append_right before ha)
    rw [Debugger.actAll_append]
    exact (tracks_actAll hp (htracks hbefore).1 hafter).2
  · exact (hnil ▸ hm).steps_eq
  · exact hm.run_eq hp hi

set_option maxRecDepth 100000 in
/-- A session that stops at a marker, looks around and goes on to the fault of the program. -/
theorem inspected_session_transparent :
    let source := Source.ofText "s" "let a = this;\ndebugger;\nvar b = a;\nc;"
    let actions : List Action := [.runToPause, .setBreakpoint ⟨"s", 3⟩, .command (.print "a"),
      .command (.exec "let d = a; d"), .command .next, .reactivate, .command .resume,
      .command .resume]
    ∃ p, Program.ofSource source ⟨false, true⟩ = .ok p ∧ (∀ a ∈ actions, a.Quiet) ∧
      (Debugger.start (.start p) .default).Transparent p actions := by
  intro source actions
  obtain ⟨p, hp⟩ : ∃ p, Program.ofSource source ⟨false, true⟩ = .ok p := ⟨_, by cbv⟩
  have hexec : QuietText "let d = a; d" := by
    obtain ⟨found, hfound, hw⟩ : ∃ body,
        Tree.ofSource (Source.ofText fragmentName "let d = a; d") = .ok body ∧
          BodyWithin .quiet body := ⟨_, by cbv, by simp [BodyWithin, Stmt.Within, Expr.Within,
            Vocabulary.quiet]⟩
    intro body hbody
    cases hfound.symm.trans hbody
    exact hw
  have hq : ∀ a ∈ actions, a.Quiet := by
    simp [actions, Action.Quiet, hexec]
  exact ⟨p, hp, hq, debugging_transparent hp .default hq⟩

end ScriptDebug
