/-
# To the next line

The command `next` goes on to the first index after the counter where the program
ends, a marker stands or the line is further down the text (`Debugger.linesAhead`).
The loop compares the present line with one that was looked up before it began.
That it cannot miss that line rests on the order of lines in a compiled program:
until the next line begins all instructions are on one line, and for all of them
the next line is the same (`Program.nextLine_succ`).

Every command keeps the program (`Debugger.program_actAll`), so this holds of every
state of a session.

Key definitions: `Debugger.linesAhead`, `Debugger.AdvancesByLine`.
Key theorems: `Debugger.goesTo_stepToLine`, `Debugger.program_actAll`,
`next_advances_by_line`.
-/
import ScriptDebug.Proofs.Debugger.StopPoints
import ScriptDebug.Proofs.Program.Lines

namespace ScriptDebug
namespace Debugger

/-- The indices after the counter at which a step to the next line ends. -/
def linesAhead (d : Debugger) : Set Nat :=
  {i | d.machine.frame.pc < i ∧ (i = d.machine.frame.program.code.size ∨
    d.machine.frame.program.code[i]? = some .pause ∨ d.line < d.machine.frame.program.lineAt i)}

theorem mem_linesAhead {d : Debugger} {i : Nat} : i ∈ d.linesAhead ↔
    d.machine.frame.pc < i ∧ (i = d.machine.frame.program.code.size ∨
      d.machine.frame.program.code[i]? = some .pause ∨
        d.line < d.machine.frame.program.lineAt i) := Iff.rfl

theorem exists_isLeast_linesAhead {d : Debugger} (h : d.canRun = true) :
    ∃ q, IsLeast d.linesAhead q := by
  have hend : d.linesAhead.Nonempty := ⟨_, d.canRun_iff.1 h, Or.inl rfl⟩
  exact ⟨sInf d.linesAhead, isLeast_csInf hend⟩

/-- Up to where a step to the next line ends, everything is on one line. -/
theorem lineAt_of_lt_isLeast {d : Debugger} (hm : d.machine.frame.program.Marked) {q i : Nat}
    (hq : IsLeast d.linesAhead q) (hi : d.machine.frame.pc ≤ i) (hiq : i < q) :
    d.machine.frame.program.lineAt i = d.line := by
  refine Nat.le_antisymm (Nat.le_of_not_lt fun hlt => ?_) (Program.lineAt_mono hm hi)
  rcases Nat.lt_or_eq_of_le hi with hpc | rfl
  · have := hq.2 (show i ∈ d.linesAhead from ⟨hpc, Or.inr (Or.inr hlt)⟩)
    omega
  · exact Nat.lt_irrefl _ hlt

/-! ### The loop -/

/-- After a step the loop has to end exactly where a step to the next line ends. -/
theorem mem_linesAhead_of_step {d d' : Debugger} (h : d.machine.step = .done d'.machine) :
    d.machine.frame.pc + 1 ∈ d.linesAhead ↔ (d'.canRun &&
      d'.line ≠ d.machine.frame.program.nextLine d.machine.frame.pc && !d'.atMarker) = false := by
  have hpc : d'.machine.frame.pc = d.machine.frame.pc + 1 := Machine.pc_step h
  have hp : d'.machine.frame.program = d.machine.frame.program := Machine.program_of_step h
  have hi : d.machine.frame.pc < d.machine.frame.program.code.size :=
    d.canRun_iff.1 (Machine.hasInstructions_of_step h)
  have hline : d'.line = d.machine.frame.program.lineAt (d.machine.frame.pc + 1) := by
    show d'.machine.frame.program.lineAt d'.machine.frame.pc = _
    rw [hp, hpc]
  have hmarker : d'.atMarker = true ↔
      d.machine.frame.program.code[d.machine.frame.pc + 1]? = some .pause := by
    unfold atMarker
    rw [decide_eq_true_iff, hp, hpc]
  by_cases hrun : d'.canRun = true
  · have hlt : d.machine.frame.pc + 1 < d.machine.frame.program.code.size := by
      have := d'.canRun_iff.1 hrun
      rwa [hp, hpc] at this
    have hnext : d'.line = d.machine.frame.program.nextLine d.machine.frame.pc ↔
        d.line < d.machine.frame.program.lineAt (d.machine.frame.pc + 1) :=
      hline ▸ Program.lineAt_succ_eq_nextLine_iff hlt
    simp only [mem_linesAhead, Nat.lt_succ_self, true_and, Nat.ne_of_lt hlt,
      false_or, ← hmarker, ← hnext, hrun, Bool.true_and]
    by_cases hn : d'.line = d.machine.frame.program.nextLine d.machine.frame.pc
    · simp [hn]
    · simp [hn]
  · have hend : d.machine.frame.pc + 1 = d.machine.frame.program.code.size := by
      rw [canRun_iff, hpc, hp] at hrun
      omega
    have hnot : d'.canRun = false := Bool.eq_false_iff.2 hrun
    exact iff_of_true ⟨Nat.lt_succ_self _, Or.inl hend⟩ (by rw [hnot]; rfl)

/-- **A step to the next line goes where that line begins**, when it has looked the line up from where
it is, and there are steps enough. -/
theorem goesTo_stepToLine {q : Nat} (n : Nat) {d : Debugger}
    (hm : d.machine.frame.program.Marked) (hq : IsLeast d.linesAhead q)
    (hn : q ≤ d.machine.frame.pc + n) :
    let r := stepToLine n (d.machine.frame.program.nextLine d.machine.frame.pc) d
    d.machine.GoesTo q r.1.machine r.2 := by
  induction n generalizing d with
  | zero =>
    have hlt : d.machine.frame.pc < q := hq.1.1
    omega
  | succ n ih =>
    have hlt : d.machine.frame.pc < q := hq.1.1
    unfold stepToLine
    rcases d.stepOnce_cases with ⟨d', e, hs, hgo⟩ | ⟨d', hs, hd, -⟩
    · rw [hs]
      exact hgo q hlt
    · have hpc : d'.machine.frame.pc = d.machine.frame.pc + 1 := Machine.pc_step hd
      have hp : d'.machine.frame.program = d.machine.frame.program := Machine.program_of_step hd
      have hends := mem_linesAhead_of_step hd
      rw [hs]
      refine .step hd hlt ?_
      by_cases hat : d.machine.frame.pc + 1 ∈ d.linesAhead
      · obtain rfl : q = d'.machine.frame.pc := by
          have := hq.2 hat
          omega
        simp only [hends.1 hat]
        exact .here _
      · have hgoes := mt hends.2 hat
        rw [Bool.not_eq_false] at hgoes
        have hsize : d.machine.frame.pc + 1 < d.machine.frame.program.code.size := by
          have hrun : d'.canRun = true := by simp_all
          have := d'.canRun_iff.1 hrun
          rwa [hp, hpc] at this
        have hne : q ≠ d.machine.frame.pc + 1 := fun heq => hat (heq ▸ hq.1)
        -- still on the line that the step began on
        have hline : d.machine.frame.program.lineAt (d.machine.frame.pc + 1) = d.line :=
          lineAt_of_lt_isLeast hm hq (Nat.le_succ _) (by omega)
        have hline' : d'.line = d.line := by
          show d'.machine.frame.program.lineAt d'.machine.frame.pc = d.line
          rw [hp, hpc, hline]
        have hnext : d'.machine.frame.program.nextLine d'.machine.frame.pc =
            d.machine.frame.program.nextLine d.machine.frame.pc := by
          rw [hp, hpc]
          exact Program.nextLine_succ hsize hline
        have hmem (i : Nat) : i ∈ d'.linesAhead ↔
            d.machine.frame.pc + 1 < i ∧ i ∈ d.linesAhead := by
          simp only [mem_linesAhead, hp, hpc, hline']
          constructor
          · intro h
            exact ⟨h.1, Nat.lt_of_succ_lt h.1, h.2⟩
          · intro h
            exact ⟨h.1, h.2.2⟩
        have hq' : IsLeast d'.linesAhead q :=
          ⟨(hmem q).2 ⟨by omega, hq.1⟩, fun i hi => hq.2 ((hmem i).1 hi).2⟩
        have hgo := ih (hp ▸ hm) hq' (by omega)
        rw [hnext] at hgo
        simp only [hgoes, if_true]
        exact hgo

/-! ### The command -/

theorem goesTo_next {d : Debugger} {q : Nat} (hm : d.machine.frame.program.Marked)
    (hi : d.canRun = true) (hq : IsLeast d.linesAhead q) :
    d.machine.GoesTo q (d.run .next).1.machine (d.run .next).2.error := by
  let began := (d.tell (.command "next" d.machine.frame.pc)).setPhase .running
  have hsize : q ≤ d.machine.frame.program.code.size :=
    hq.2 ⟨d.canRun_iff.1 hi, Or.inl rfl⟩
  have hremaining : began.remaining = d.machine.frame.program.code.size - d.machine.frame.pc := rfl
  have hgo := goesTo_stepToLine (d := began) began.remaining hm hq (by
    show q ≤ d.machine.frame.pc + began.remaining
    omega)
  have hrun : began.canRun = true := hi
  have hif : (if began.canRun then stepToLine began.remaining
      (d.machine.frame.program.nextLine d.machine.frame.pc) began else (began, none)) =
      stepToLine began.remaining (d.machine.frame.program.nextLine d.machine.frame.pc) began :=
    if_pos hrun
  rw [show began.machine = d.machine from rfl, ← hif] at hgo
  exact hgo

/-! ### The program stays -/

/-- What single steps preserve, the loop that goes on to a line preserves. -/
theorem stepToLine_induction {P : Debugger → Prop} (hstep : ∀ d, P d → P d.stepOnce.1)
    (n target : Nat) {d : Debugger} (h : P d) : P (stepToLine n target d).1 := by
  induction n generalizing d with
  | zero => exact h
  | succ n ih =>
    have hs := hstep d h
    unfold stepToLine
    rcases hd : d.stepOnce with ⟨d', _ | e⟩
    · rw [hd] at hs
      simp only
      split
      · exact ih hs
      · exact hs
    · rw [hd] at hs
      exact hs

/-- The loop that goes on to a line moves the machine only. -/
theorem moved_stepToLine (n target : Nat) (d : Debugger) : d.Moved (stepToLine n target d).1 :=
  stepToLine_induction (fun d' h => h.trans d'.moved_stepOnce) n target (.refl d)

theorem program_next (d : Debugger) :
    d.next.1.machine.frame.program = d.machine.frame.program := by
  unfold next
  simp only
  split
  · exact (moved_stepToLine _ _ (d.setPhase .running)).program
  · rfl

theorem program_resume (d : Debugger) :
    d.resume.1.machine.frame.program = d.machine.frame.program := by
  have hoff := (d.setPhase .running).moved_runOff.program
  unfold resume
  rcases ho : (d.setPhase .running).runOff with ⟨after, outcome⟩
  rw [ho] at hoff
  cases outcome with
  | ok reason => exact hoff
  | error e => exact hoff

theorem program_runToPause (d : Debugger) :
    d.runToPause.1.machine.frame.program = d.machine.frame.program := d.moved_runUpTo.program

/-- A fragment leaves the program of the frame installed. -/
theorem program_exec (d : Debugger) (text : String) :
    (d.exec text).1.machine.frame.program = d.machine.frame.program := by
  unfold exec
  split
  · rfl
  · exact congrArg Frame.program (d.machine.frame_evaluate text)

theorem program_print (d : Debugger) (x : String) :
    (d.print x).1.machine.frame.program = d.machine.frame.program := by
  rw [d.machine_print x]

/-- **Whatever is done to a debugger keeps its program.** -/
theorem program_act (d : Debugger) (a : Action) :
    (d.act a).1.machine.frame.program = d.machine.frame.program := by
  cases a with
  | command c =>
    cases c with
    | next => exact program_next (d.tell _)
    | resume => exact program_resume (d.tell _)
    | exec text => exact program_exec (d.tell _) text
    | print x => exact program_print (d.tell _) x
    | stepIn | stepOut | list => rfl
  | setBreakpoint b =>
    show (d.setBreakpoint b).1.machine.frame.program = _
    unfold setBreakpoint
    split <;> rfl
  | clearBreakpoint b =>
    show (d.clearBreakpoint b).1.machine.frame.program = _
    unfold clearBreakpoint
    split <;> rfl
  | reactivate => rfl
  | runToPause => exact d.program_runToPause

theorem program_actAll (d : Debugger) (actions : List Action) :
    (d.actAll actions).1.machine.frame.program = d.machine.frame.program := by
  induction actions generalizing d with
  | nil => rfl
  | cons a actions ih => exact (ih _).trans (d.program_act a)

end Debugger

/-- How `next` moves a debugger that has instructions of the program `p` left. It goes to the first
index after the counter where the program ends, a marker stands or the line is further down; all that
it executes is on the line it began on. The line that is announced as the next one is that of the
first index further down, and there is none exactly if nothing is further down. -/
structure Debugger.AdvancesByLine (p : Program) (d : Debugger) : Prop where
  program : d.machine.frame.program = p
  goes : ∃ q, IsLeast d.linesAhead q ∧
    d.machine.GoesTo q (d.run .next).1.machine (d.run .next).2.error ∧
    ∀ i, d.machine.frame.pc ≤ i → i < q → p.lineAt i = p.lineAt d.machine.frame.pc
  announced : ∀ k, IsLeast (p.further d.machine.frame.pc) k →
    p.nextLine d.machine.frame.pc = p.lineAt k
  last : p.nextLine d.machine.frame.pc = 0 ↔ p.further d.machine.frame.pc = ∅

/-- **The command `next` advances by one line with code**, from every state that a session with the
program of a script can come to before the program ends. -/
theorem next_advances_by_line {source : Source} {g : Bool} {p : Program}
    (h : Program.ofSource source ⟨false, g⟩ = .ok p) {first : Debugger}
    (hfirst : first.machine.frame.program = p) (actions : List Action)
    (hrun : (first.actAll actions).1.canRun = true) :
    (first.actAll actions).1.AdvancesByLine p := by
  have hp : (first.actAll actions).1.machine.frame.program = p :=
    (first.program_actAll actions).trans hfirst
  have hm : p.Marked := Program.marked_ofSource h
  obtain ⟨q, hq⟩ := Debugger.exists_isLeast_linesAhead hrun
  refine ⟨hp, ⟨q, hq, ?_, fun i hi hiq => ?_⟩, fun k hk => ?_, ?_⟩
  · exact Debugger.goesTo_next (hp ▸ hm) hrun hq
  · have hline := Debugger.lineAt_of_lt_isLeast (hp ▸ hm) hq hi hiq
    rw [Debugger.line, Machine.line, hp] at hline
    exact hline
  · exact Program.nextLine_of_isLeast hm hk
  · exact Program.nextLine_eq_zero_iff hm

set_option maxRecDepth 100000 in
/-- A session that is positioned at a marker and goes on from there. -/
theorem opening_marker_advances :
    let source := Source.ofText "s" "debugger;\nlet a = this;\n{ a }"
    let actions : List Action := [.runToPause, .command .list, .reactivate]
    ∃ p, Program.ofSource source ⟨false, true⟩ = .ok p ∧
      ((Debugger.start (.start p) .default).actAll actions).1.canRun = true ∧
      ((Debugger.start (.start p) .default).actAll actions).1.AdvancesByLine p := by
  intro source actions
  obtain ⟨p, hp, hmarker⟩ : ∃ p, Program.ofSource source ⟨false, true⟩ = .ok p ∧
      p.code[0]? = some .pause := ⟨_, by cbv, by cbv⟩
  have hparked : (Debugger.start (.start p) .default).Parked := Or.inr (Or.inl hmarker)
  have hrun : ((Debugger.start (.start p) .default).actAll actions).1.canRun = true := by
    have hstays : ((Debugger.start (.start p) .default).actAll actions).1.machine = .start p :=
      (Debugger.runToPause_of_parked hparked).1
    rw [Debugger.canRun_iff, hstays]
    exact (Array.getElem?_eq_some_iff.1 hmarker).1
  exact ⟨p, hp, hrun, next_advances_by_line hp rfl actions hrun⟩

end ScriptDebug
