/-
# A fragment leaves the paused frame as it was

A fragment runs on the operand stack of the paused frame, above a receiver of
its own, and its base makes that receiver the floor: no instruction takes off
what lies below (`Machine.keeps_perform`), so the stack of the paused frame is
the bottom of the stack whatever the fragment does and wherever it stops. The
frame itself waits among those set aside, which no instruction touches.

So of the machine only the scopes and the globals can change
(`evaluate_of_ok`), and everything else is as it was (`frame_restored`), for
every machine and every text.
-/
import ScriptDebug.Fragment
import ScriptDebug.Proofs.Machine.Execution

namespace ScriptDebug
namespace Machine

/-- The machine after a fragment: the paused one, with the scopes and the globals of the run. -/
def withMemory (m ran : Machine) : Machine := { m with scopes := ran.scopes, globals := ran.globals }

/-- The run of a fragment on top of a frame. -/
def fragmentRun (m : Machine) (p : Program) : Outcome := (m.enterFragment p).run

theorem leaveFragment_fragmentRun (m : Machine) (p : Program) :
    m.leaveFragment (m.fragmentRun p).machine = .ok (m.withMemory (m.fragmentRun p).machine) := by
  have h : (m.enterFragment p).SameFrame (m.fragmentRun p).machine := sameFrame_runFor _ _
  -- the receiver of the fragment is its floor, and the stack of the paused frame lies below
  have hfloor : m.self :: m.stack <:+ (m.fragmentRun p).machine.stack :=
    h.bottom (m.self :: m.stack) (List.suffix_refl _) (Nat.le_refl _)
  have hb : m.stack <:+ (m.fragmentRun p).machine.stack :=
    (List.suffix_cons m.self m.stack).trans hfloor
  have hs : (m.fragmentRun p).machine.saved = m.frame :: m.saved := h.saved
  unfold leaveFragment resume?
  rw [hs]
  simp only [truncate, height, withMemory]
  rw [← List.suffix_iff_eq_drop.1 hb]

/-- A text that parses is run, and then the frame goes on where it was. -/
theorem evaluate_of_ok {m : Machine} {text : String} {p : Program}
    (h : m.fragmentProgram text = .ok p) :
    (m.evaluate text).machine = m.withMemory (m.fragmentRun p).machine ∧
      (m.evaluate text).outcome = fragmentOutcome (m.fragmentRun p) := by
  unfold evaluate
  rw [h]
  simp only
  rw [show (m.enterFragment p).run = m.fragmentRun p from rfl, leaveFragment_fragmentRun]
  exact ⟨rfl, rfl⟩

/-- A text that does not parse is not run. -/
theorem evaluate_of_error {m : Machine} {text : String} {e : SyntaxError}
    (h : m.fragmentProgram text = .error e) :
    (m.evaluate text).machine = m ∧ (m.evaluate text).outcome = .error (.misread e) := by
  unfold evaluate
  rw [h]
  exact ⟨rfl, rfl⟩

theorem frame_evaluate (m : Machine) (text : String) :
    (m.evaluate text).machine.frame = m.frame := by
  cases h : m.fragmentProgram text with
  | error e => rw [(evaluate_of_error h).1]
  | ok p =>
    rw [(evaluate_of_ok h).1]
    rfl

/-- **The paused frame is restored.** After a fragment, whether it does not parse, ends with a value
or raises a fault at any place, the frame has its program, counter, base, arguments, completion
value and scopes, the stack has all its values, the machine has halted or not as before, and the
same frames wait. -/
theorem frame_restored (m : Machine) (text : String) :
    let after := (m.evaluate text).machine
    after.frame = m.frame ∧ after.stack = m.stack ∧ after.halted = m.halted ∧
      after.saved = m.saved := by
  intro after
  cases h : m.fragmentProgram text with
  | error e =>
    rw [show after = m from (evaluate_of_error h).1]
    exact ⟨rfl, rfl, rfl, rfl⟩
  | ok p =>
    rw [show after = m.withMemory (m.fragmentRun p).machine from (evaluate_of_ok h).1]
    exact ⟨rfl, rfl, rfl, rfl⟩

end Machine
end ScriptDebug
