/-
# Where a run stops

A run goes from one instruction to the next until it comes to a stop point: the
end of the program, a marker, or the first instruction of a line that has a
breakpoint. Which points these are can be read off the program and the registered
breakpoints (`Debugger.StopsAt`), and the run ends at the first of them after the
counter, unless a fault ends it before (`Machine.GoesTo`).

`resume` leaves the present instruction whatever it is. The first positioning of
a session stays where it is if that is a stop already (`Debugger.Parked`), and
goes the way of `resume` otherwise; so once it has come to a stop it does not
move any more.

Running moves the machine and leaves the session, the breakpoints and the options
alone (`Debugger.moved_runOn`).

Key definitions: `Machine.GoesTo`, `Debugger.StopsAt`, `Debugger.Moved`, `Debugger.Parked`.
Key theorems: `Machine.GoesTo.unique`, `Debugger.moved_stepOnce`, `Debugger.goesTo_runOn`,
`resume_stops_at_first`.
-/
import ScriptDebug.Proofs.Debugger.Transparency

namespace ScriptDebug

/-! ### Going to an index of the code -/

/-- The machine executes what stands from its counter up to the index `q`, each instruction once. It
arrives at `q` without a fault; or some instruction `r` before `q` is the first to raise a fault, which
is reported, and the rest of the program is given up. -/
inductive Machine.GoesTo (m : Machine) (q : Nat) : Machine → Option DebugError → Prop
  | arrives {m' : Machine} : m.steps (q - m.frame.pc) = .done m' → m'.frame.pc = q →
    GoesTo m q m' none
  | raises {r : Nat} {m₁ m₂ : Machine} {f : Fault} : m.frame.pc ≤ r → r < q →
    m.steps (r - m.frame.pc) = .done m₁ → m₁.frame.pc = r → m₁.step = .raised f m₂ →
    m₂.terminate.frame.pc = m.frame.program.code.size →
    GoesTo m q m₂.terminate (some (.execution f))

namespace Machine

theorem program_of_step {m m' : Machine} (h : m.step = .done m') :
    m'.frame.program = m.frame.program := by
  have hframe := m.sameFrame_step
  rw [h] at hframe
  exact hframe.program

theorem program_of_raised {m m' : Machine} {f : Fault} (h : m.step = .raised f m') :
    m'.frame.program = m.frame.program := by
  have hframe := m.sameFrame_step
  rw [h] at hframe
  exact hframe.program

/-- A fault of the last step keeps the program, so to give up goes to its end. -/
theorem pc_terminate_of_raised {m m' : Machine} {f : Fault} (h : m.step = .raised f m') :
    m'.terminate.frame.pc = m.frame.program.code.size :=
  congrArg (fun p => p.code.size) (program_of_raised h)

/-- Steps that go past an instruction have executed it. -/
theorem steps_ne_done_of_raised {m m₁ m₂ m' : Machine} {f : Fault} {a b : Nat} (hab : a < b)
    (ha : m.steps a = .done m₁) (hs : m₁.step = .raised f m₂) : m.steps b ≠ .done m' := by
  obtain ⟨k, rfl⟩ : ∃ k, b = a + (k + 1) := ⟨b - a - 1, by omega⟩
  rw [steps_add, ha, Outcome.andThen_done, steps_succ, hs]
  exact nofun

namespace GoesTo

variable {m m' m'' : Machine} {q : Nat} {e : Option DebugError}

theorem here (m : Machine) : m.GoesTo m.frame.pc m none := by
  refine .arrives ?_ rfl
  rw [Nat.sub_self]
  rfl

theorem raised {f : Fault} (h : m.step = .raised f m') (hq : m.frame.pc < q) :
    m.GoesTo q m'.terminate (some (.execution f)) := by
  refine .raises (Nat.le_refl _) hq ?_ rfl h (pc_terminate_of_raised h)
  rw [Nat.sub_self]
  rfl

/-- One step, and then the rest of the way. -/
theorem step (h : m.step = .done m') (hq : m.frame.pc < q) (hg : m'.GoesTo q m'' e) :
    m.GoesTo q m'' e := by
  have hpc := pc_step h
  have hsteps (k : Nat) (hk : m.frame.pc < k) :
      m.steps (k - m.frame.pc) = m'.steps (k - m'.frame.pc) := by
    have hk' : k - m.frame.pc = (k - m'.frame.pc) + 1 := by omega
    rw [hk', steps_succ, h, Outcome.andThen_done]
  cases hg with
  | arrives hs hend => exact .arrives ((hsteps q hq).trans hs) hend
  | @raises r m₁ m₂ f hr hrq hs hend hf hsize =>
    have hlt : m.frame.pc < r := by omega
    have hsize' : m₂.terminate.frame.pc = m.frame.program.code.size :=
      hsize.trans (congrArg (fun p => p.code.size) (program_of_step h))
    exact .raises (Nat.le_of_lt hlt) hrq ((hsteps r hlt).trans hs) hend hf hsize'

/-- There is one way to an index. -/
theorem unique {a b : Machine} {ea eb : Option DebugError} (ha : m.GoesTo q a ea)
    (hb : m.GoesTo q b eb) : a = b ∧ ea = eb := by
  cases ha with
  | arrives hs _ =>
    cases hb with
    | arrives hs' _ =>
      cases hs.symm.trans hs'
      exact ⟨rfl, rfl⟩
    | @raises r _ _ _ hr hrq hs' _ hf _ =>
      have hlt : r - m.frame.pc < q - m.frame.pc := by omega
      exact absurd hs (steps_ne_done_of_raised hlt hs' hf)
  | @raises r m₁ m₂ f hr hrq hs hend hf _ =>
    cases hb with
    | arrives hs' _ =>
      have hlt : r - m.frame.pc < q - m.frame.pc := by omega
      exact absurd hs' (steps_ne_done_of_raised hlt hs hf)
    | @raises r' m₁' m₂' f' hr' hrq' hs' hend' hf' _ =>
      rcases Nat.lt_trichotomy r r' with hlt | rfl | hlt
      · have hlt : r - m.frame.pc < r' - m.frame.pc := by omega
        exact absurd hs' (steps_ne_done_of_raised hlt hs hf)
      · cases hs.symm.trans hs'
        cases hf.symm.trans hf'
        exact ⟨rfl, rfl⟩
      · have hlt : r' - m.frame.pc < r - m.frame.pc := by omega
        exact absurd hs (steps_ne_done_of_raised hlt hs' hf')

end GoesTo
end Machine

/-! ### Stop points -/

namespace Debugger

/-- Whether a run that comes to index `i` from the instruction before it stops there: the program
ends, a marker stands there, or a line that has a breakpoint is entered. -/
def StopsAt (d : Debugger) (i : Nat) : Prop :=
  i = d.machine.frame.program.code.size ∨ d.machine.frame.program.code[i]? = some .pause ∨
    d.machine.frame.program.lineAt i ≠ d.machine.frame.program.lineAt (i - 1) ∧
      ⟨d.filename, d.machine.frame.program.lineAt i⟩ ∈ d.breakpoints.points

/-- The indices after the counter at which a run stops. -/
def stopsAhead (d : Debugger) : Set Nat := {i | d.machine.frame.pc < i ∧ d.StopsAt i}

/-- Whether a debugger is at a stop already: no instruction is left, the next one is a marker, or its
line has a breakpoint. -/
def Parked (d : Debugger) : Prop :=
  d.canRun = false ∨ d.machine.frame.program.code[d.machine.frame.pc]? = some .pause ∨
    ⟨d.filename, d.line⟩ ∈ d.breakpoints.points

theorem stopHere?_isSome {d : Debugger} {entered : Bool} :
    (d.stopHere? entered).isSome = true ↔
      d.machine.frame.program.code[d.machine.frame.pc]? = some .pause ∨
        entered = true ∧ ⟨d.filename, d.line⟩ ∈ d.breakpoints.points := by
  unfold stopHere? atMarker atBreakpoint Breakpoints.contains
  by_cases hp : d.machine.frame.program.code[d.machine.frame.pc]? = some .pause
  · simp [hp]
  · by_cases hb : entered = true ∧ ⟨d.filename, d.line⟩ ∈ d.breakpoints.points
    · simp [hp, hb]
    · have hb' : (entered && d.breakpoints.points.contains ⟨d.filename, d.line⟩) = false := by
        simpa using hb
      simp only [hp, hb', hb]
      simp

theorem canRun_iff (d : Debugger) :
    d.canRun = true ↔ d.machine.frame.pc < d.machine.frame.program.code.size :=
  decide_eq_true_iff

/-- A run stops after the counter at the latest where the program ends. -/
theorem exists_isLeast_stopsAhead {d : Debugger} (h : d.canRun = true) :
    ∃ q, IsLeast d.stopsAhead q := by
  have hend : d.stopsAhead.Nonempty := ⟨_, d.canRun_iff.1 h, Or.inl rfl⟩
  exact ⟨sInf d.stopsAhead, isLeast_csInf hend⟩

theorem le_size_of_isLeast {d : Debugger} {q : Nat} (h : d.canRun = true)
    (hq : IsLeast d.stopsAhead q) : q ≤ d.machine.frame.program.code.size :=
  hq.2 ⟨d.canRun_iff.1 h, Or.inl rfl⟩

/-! ### What a step leaves alone -/

/-- What running keeps of a debugger: only where the machine is and what is told of it are different. -/
structure Moved (d d' : Debugger) : Prop where
  program : d'.machine.frame.program = d.machine.frame.program
  session : d'.session = d.session
  breakpoints : d'.breakpoints = d.breakpoints
  options : d'.options = d.options

theorem Moved.refl (d : Debugger) : d.Moved d := ⟨rfl, rfl, rfl, rfl⟩

theorem Moved.trans {d d' d'' : Debugger} (h : d.Moved d') (h' : d'.Moved d'') : d.Moved d'' :=
  ⟨h'.program.trans h.program, h'.session.trans h.session, h'.breakpoints.trans h.breakpoints,
    h'.options.trans h.options⟩

theorem moved_tellInstruction (d : Debugger) : d.Moved d.tellInstruction := by
  unfold tellInstruction
  split
  · exact ⟨rfl, rfl, rfl, rfl⟩
  · exact .refl d

/-- **A step moves the machine and nothing else.** -/
theorem moved_stepOnce (d : Debugger) : d.Moved d.stepOnce.1 := by
  refine d.moved_tellInstruction.trans ?_
  unfold stepOnce stepMachine
  cases hs : d.tellInstruction.machine.step with
  | done m =>
    simp only [hs]
    exact ⟨Machine.program_of_step hs, rfl, rfl, rfl⟩
  | raised f m =>
    simp only [hs]
    have hp : m.frame.program = d.tellInstruction.machine.frame.program :=
      Machine.program_of_raised hs
    exact ⟨hp, rfl, rfl, rfl⟩

/-- What single steps preserve, the loop that goes on to a stop point preserves. -/
theorem runOn_induction {P : Debugger → Prop} (hstep : ∀ d, P d → P d.stepOnce.1)
    (n line : Nat) {d : Debugger} (h : P d) : P (runOn n line d).1 := by
  induction n generalizing line d with
  | zero => exact h
  | succ n ih =>
    have hs := hstep d h
    unfold runOn
    rcases hd : d.stepOnce with ⟨d', _ | e⟩
    · rw [hd] at hs
      simp only
      split
      · exact hs
      · split
        · exact hs
        · exact ih d'.line hs
    · rw [hd] at hs
      exact hs

/-- The loop that goes on to a stop point moves the machine only. -/
theorem moved_runOn (n line : Nat) (d : Debugger) : d.Moved (runOn n line d).1 :=
  runOn_induction (fun d' h => h.trans d'.moved_stepOnce) n line (.refl d)

theorem moved_runOff (d : Debugger) : d.Moved d.runOff.1 := by
  unfold runOff
  split
  · exact moved_runOn _ _ d
  · exact .refl d

theorem moved_runUpTo (d : Debugger) : d.Moved d.runUpTo.1 := by
  unfold runUpTo
  split
  · exact .refl d
  · split
    · exact .refl d
    · exact moved_runOn _ _ d

/-- The same program with the same breakpoints has the same stop points. -/
theorem stopsAt_congr {d d' : Debugger} (hp : d'.machine.frame.program = d.machine.frame.program)
    (hb : d'.breakpoints = d.breakpoints) (i : Nat) : d'.StopsAt i ↔ d.StopsAt i := by
  simp only [StopsAt, filename, hp, hb]

/-- After a step the loop has to stop exactly at a stop point. -/
theorem stopsAt_iff_of_step {d d' : Debugger} (h : d.machine.step = .done d'.machine)
    (hb : d'.breakpoints = d.breakpoints) :
    d.StopsAt (d.machine.frame.pc + 1) ↔
      d'.canRun = false ∨ (d'.stopHere? (d'.line ≠ d.line)).isSome = true := by
  have hpc : d'.machine.frame.pc = d.machine.frame.pc + 1 := Machine.pc_step h
  have hp : d'.machine.frame.program = d.machine.frame.program := Machine.program_of_step h
  have hi : d.machine.frame.pc < d.machine.frame.program.code.size :=
    d.canRun_iff.1 (Machine.hasInstructions_of_step h)
  have hend : d'.canRun = false ↔ d.machine.frame.pc + 1 = d.machine.frame.program.code.size := by
    rw [← Bool.not_eq_true, canRun_iff, hpc, hp]
    omega
  have hline : d'.line = d.machine.frame.program.lineAt (d.machine.frame.pc + 1) := by
    simp only [line, Machine.line, hp, hpc]
  have hentered : decide (d'.line ≠ d.line) = true ↔
      d.machine.frame.program.lineAt (d.machine.frame.pc + 1) ≠
        d.machine.frame.program.lineAt (d.machine.frame.pc + 1 - 1) := by
    rw [decide_eq_true_iff, hline, Nat.add_sub_cancel]
    rfl
  rw [stopHere?_isSome, hentered, hend, StopsAt, hline, hpc, hp, hb]
  simp only [filename, hp]

/-! ### The loop -/

/-- A step raises a fault, and that is the way to wherever the run was to go; or it leads to the next
instruction. -/
theorem stepOnce_cases (d : Debugger) :
    (∃ d' e, d.stepOnce = (d', some e) ∧
      ∀ q, d.machine.frame.pc < q → d.machine.GoesTo q d'.machine (some e)) ∨
    ∃ d', d.stepOnce = (d', none) ∧ d.machine.step = .done d'.machine ∧
      d'.breakpoints = d.breakpoints := by
  have hb := d.moved_stepOnce.breakpoints
  rcases hs : d.stepOnce with ⟨d', e⟩
  rw [hs] at hb
  cases hd : d.machine.step with
  | raised f m =>
    obtain ⟨hm, he⟩ := stepOnce_of_raised hd
    rw [hs] at hm he
    obtain rfl : e = some (.execution f) := he
    refine Or.inl ⟨d', _, rfl, fun q hlt => ?_⟩
    rw [show d'.machine = m.terminate from hm]
    exact .raised hd hlt
  | done m =>
    obtain ⟨hm, he⟩ := stepOnce_of_done hd
    rw [hs] at hm he
    obtain rfl : e = none := he
    obtain rfl : d'.machine = m := hm
    exact Or.inr ⟨d', rfl, rfl, hb⟩

/-- **A run goes to the first stop point.** The line that the loop remembers is that of the
instruction at the counter, and there are steps enough. -/
theorem goesTo_runOn {q : Nat} (n : Nat) {d : Debugger} (hq : IsLeast d.stopsAhead q)
    (hn : q ≤ d.machine.frame.pc + n) :
    d.machine.GoesTo q (runOn n d.line d).1.machine (errorOf (runOn n d.line d).2) := by
  induction n generalizing d with
  | zero =>
    have hlt : d.machine.frame.pc < q := hq.1.1
    omega
  | succ n ih =>
    have hlt : d.machine.frame.pc < q := hq.1.1
    unfold runOn
    rcases d.stepOnce_cases with ⟨d', e, hs, hgo⟩ | ⟨d', hs, hd, hb⟩
    · rw [hs]
      exact hgo q hlt
    · have hpc : d'.machine.frame.pc = d.machine.frame.pc + 1 := Machine.pc_step hd
      have hstop := stopsAt_iff_of_step hd hb
      rw [hs]
      refine .step hd hlt ?_
      by_cases hat : d.StopsAt (d.machine.frame.pc + 1)
      · obtain rfl : q = d'.machine.frame.pc := by
          have := hq.2 (show d.machine.frame.pc + 1 ∈ d.stopsAhead from ⟨Nat.lt_succ_self _, hat⟩)
          omega
        rcases hstop.1 hat with hend | hhere
        · simp only [hend]
          exact .here _
        · obtain ⟨reason, hreason⟩ := Option.isSome_iff_exists.1 hhere
          simp only [hreason]
          split
          · exact .here _
          · exact .here _
      · have hne : q ≠ d.machine.frame.pc + 1 := fun heq => hat (heq ▸ hq.1.2)
        have hp : d'.machine.frame.program = d.machine.frame.program := Machine.program_of_step hd
        -- nothing but the index just passed is no longer ahead
        have hq' : IsLeast d'.stopsAhead q := by
          refine ⟨⟨by omega, (stopsAt_congr hp hb q).2 hq.1.2⟩, fun i hi => ?_⟩
          have hgt : d'.machine.frame.pc < i := hi.1
          exact hq.2 ⟨by omega, (stopsAt_congr hp hb i).1 hi.2⟩
        have hgone := mt hstop.2 hat
        rw [not_or, Bool.not_eq_false, Bool.not_eq_true, Option.isSome_eq_false_iff,
          Option.isNone_iff_eq_none] at hgone
        obtain ⟨hrun, hhere⟩ := hgone
        simp only [hrun, hhere]
        exact ih hq' (by omega)

/-! ### Resuming and the first positioning -/

/-- From a stop point or not, to resume goes to the next one. -/
theorem goesTo_resume {d : Debugger} {q : Nat} (hi : d.canRun = true)
    (hq : IsLeast d.stopsAhead q) :
    d.machine.GoesTo q (d.run .resume).1.machine (d.run .resume).2.error := by
  let began := (d.tell (.command "continue" d.machine.frame.pc)).setPhase .running
  have hsize := le_size_of_isLeast hi hq
  have hgo : d.machine.GoesTo q (runOn began.remaining began.line began).1.machine
      (errorOf (runOn began.remaining began.line began).2) := by
    refine goesTo_runOn (d := began) began.remaining hq ?_
    have hremaining : began.remaining = d.machine.frame.program.code.size - d.machine.frame.pc := rfl
    have hpc : began.machine.frame.pc = d.machine.frame.pc := rfl
    omega
  have hoff : began.runOff = runOn began.remaining began.line began := if_pos hi
  rw [← hoff] at hgo
  show d.machine.GoesTo q (d.tell (.command "continue" d.machine.frame.pc)).resume.1.machine
    (d.tell (.command "continue" d.machine.frame.pc)).resume.2.error
  unfold resume
  rcases hr : began.runOff with ⟨after, outcome⟩
  rw [hr] at hgo
  cases outcome with
  | ok reason => exact hgo
  | error e => exact hgo

/-- With no instruction left there is nothing to resume. -/
theorem resume_of_ended {d : Debugger} (hi : d.canRun = false) :
    (d.run .resume).1.machine = d.machine ∧ (d.run .resume).2.error = none := by
  let began := (d.tell (.command "continue" d.machine.frame.pc)).setPhase .running
  have hrun : ¬ began.canRun = true := Bool.eq_false_iff.1 hi
  have hoff : began.runOff = (began, .ok .exhausted) := if_neg hrun
  show (d.tell (.command "continue" d.machine.frame.pc)).resume.1.machine = d.machine ∧
    (d.tell (.command "continue" d.machine.frame.pc)).resume.2.error = none
  unfold resume
  rw [hoff]
  exact ⟨rfl, rfl⟩

theorem runUpTo_of_parked {d : Debugger} (h : d.Parked) :
    ∃ reason, d.runUpTo = (d, .ok reason) := by
  unfold runUpTo
  by_cases hi : d.canRun = true
  · have hstop : (d.stopHere? true).isSome = true := by
      rw [stopHere?_isSome]
      rcases h with hend | hmarker | hbreak
      · rw [hi] at hend
        cases hend
      · exact Or.inl hmarker
      · exact Or.inr ⟨rfl, hbreak⟩
    obtain ⟨reason, hreason⟩ := Option.isSome_iff_exists.1 hstop
    exact ⟨reason, by simp [hi, hreason]⟩
  · exact ⟨.exhausted, by simp [hi]⟩

theorem runUpTo_of_not_parked {d : Debugger} (h : ¬ d.Parked) :
    d.canRun = true ∧ d.runUpTo = runOn d.remaining d.line d := by
  have hi : d.canRun = true := by
    by_contra hend
    exact h (Or.inl (by simpa using hend))
  have hstop : d.stopHere? true = none := by
    by_contra hsome
    have hsome := stopHere?_isSome.1 (Option.isSome_iff_ne_none.2 hsome)
    exact h (Or.inr (hsome.imp_right And.right))
  refine ⟨hi, ?_⟩
  unfold runUpTo
  simp [hi, hstop]

/-- What is at a stop stays there. -/
theorem runToPause_of_parked {d : Debugger} (h : d.Parked) :
    d.runToPause.1.machine = d.machine ∧ d.runToPause.2 = .ok () := by
  obtain ⟨reason, hr⟩ := runUpTo_of_parked h
  unfold runToPause
  rw [hr]
  exact ⟨rfl, rfl⟩

theorem goesTo_runToPause {d : Debugger} {q : Nat} (h : ¬ d.Parked)
    (hq : IsLeast d.stopsAhead q) :
    d.machine.GoesTo q d.runToPause.1.machine (errorOf d.runToPause.2) := by
  obtain ⟨hi, hr⟩ := runUpTo_of_not_parked h
  have hsize := le_size_of_isLeast hi hq
  have hgo := goesTo_runOn d.remaining hq (by unfold remaining; omega)
  rw [← hr] at hgo
  unfold runToPause
  rcases hu : d.runUpTo with ⟨after, outcome⟩
  rw [hu] at hgo
  cases outcome with
  | ok reason => exact hgo
  | error e => exact hgo

theorem breakpoints_runToPause (d : Debugger) : d.runToPause.1.breakpoints = d.breakpoints :=
  d.moved_runUpTo.breakpoints

/-- A machine that has arrived at a stop point is at a stop. -/
theorem parked_of_stopsAt {d : Debugger} (h : d.StopsAt d.machine.frame.pc) : d.Parked := by
  rcases h with hend | hmarker | ⟨-, hbreak⟩
  · refine Or.inl ?_
    rw [← Bool.not_eq_true, canRun_iff]
    omega
  · exact Or.inr (Or.inl hmarker)
  · exact Or.inr (Or.inr hbreak)

/-- The first positioning ends at a stop unless it reports an error. -/
theorem parked_runToPause {d : Debugger} (hok : d.runToPause.2 = .ok ()) :
    d.runToPause.1.Parked := by
  have hb := d.breakpoints_runToPause
  by_cases h : d.Parked
  · have hm := (runToPause_of_parked h).1
    simpa only [Parked, canRun, line, filename, hm, hb] using h
  · have hi := (runUpTo_of_not_parked h).1
    obtain ⟨q, hq⟩ := exists_isLeast_stopsAhead hi
    have hgo := goesTo_runToPause h hq
    rw [hok] at hgo
    generalize hm : d.runToPause.1.machine = m at hgo
    have hgo : d.machine.GoesTo q m none := hgo
    cases hgo with
    | arrives hs hend =>
      have hp : d.runToPause.1.machine.frame.program = d.machine.frame.program :=
        hm ▸ (Machine.keeps_steps hs).1.program
      refine parked_of_stopsAt ((stopsAt_congr hp hb _).2 ?_)
      rw [hm, hend]
      exact hq.1.2

end Debugger

/-- How a debugger gets to its stops. With no instruction left, to resume changes nothing. Otherwise
it goes to the first stop point after the counter. The first positioning leaves the machine where it is
at a stop, and goes the way of `resume` from anywhere else. Once it has succeeded, it changes nothing
when it is done again. -/
structure Debugger.StopsInOrder (d : Debugger) : Prop where
  ended : d.canRun = false →
    (d.run .resume).1.machine = d.machine ∧ (d.run .resume).2.error = none
  resumed : d.canRun = true → ∃ q, IsLeast d.stopsAhead q ∧
    d.machine.GoesTo q (d.run .resume).1.machine (d.run .resume).2.error
  parked : d.Parked → d.runToPause.1.machine = d.machine ∧ d.runToPause.2 = .ok ()
  positioned : ¬ d.Parked → d.runToPause.1.machine = (d.run .resume).1.machine ∧
    errorOf d.runToPause.2 = (d.run .resume).2.error
  again : d.runToPause.2 = .ok () →
    d.runToPause.1.runToPause.1.machine = d.runToPause.1.machine

/-- **A run stops exactly at the next stop point**, in every state of a debugger, whatever its program
and its breakpoints are. -/
theorem resume_stops_at_first (d : Debugger) : d.StopsInOrder where
  ended := Debugger.resume_of_ended
  resumed hi := by
    obtain ⟨q, hq⟩ := Debugger.exists_isLeast_stopsAhead hi
    exact ⟨q, hq, Debugger.goesTo_resume hi hq⟩
  parked := Debugger.runToPause_of_parked
  positioned h := by
    have hi := (Debugger.runUpTo_of_not_parked h).1
    obtain ⟨q, hq⟩ := Debugger.exists_isLeast_stopsAhead hi
    exact (Debugger.goesTo_runToPause h hq).unique (Debugger.goesTo_resume hi hq)
  again hok := (Debugger.runToPause_of_parked (Debugger.parked_runToPause hok)).1

end ScriptDebug
