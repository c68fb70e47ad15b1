/-
# The cursor and the history of lines

A session has a cursor and a history of the lines that commands were given on.
Both are written at several places, before and after the machine moves, and by a
command that fails as by one that does not. Between commands the cursor is on the
line at the counter all the same (`Debugger.currentLine_act`), and the history is
a function of what was done: `next`, `resume` and `exec` with a text that is not
blank record the line they are given on, nothing else does
(`Debugger.lastLines_act`), and of neighbours that are equal the first one stays.

Lines count from one, so the zero that every history begins with is not met again
(`cursor_and_history`).

Key definitions: `Action.recorded`, `Debugger.recordedLines`, `Debugger.KeepsHistory`.
Key theorems: `Session.history_pushLine`, `Debugger.currentLine_act`,
`Debugger.lastLines_act`, `cursor_and_history`.
-/
import Mathlib.Data.List.Destutter
import ScriptDebug.Proofs.Debugger.Gates
import ScriptDebug.Proofs.Text.Runs

namespace ScriptDebug

/-- Whether an action puts the line it is given on into the history. -/
def Action.recorded : Action → Bool
  | .command .next | .command .resume => true
  | .command (.exec text) => text.toList.any (!Text.isBlank ·)
  | _ => false

/-! ### Equal neighbours -/

section

variable {α : Type} [DecidableEq α]

theorem getLast?_destutter' (a : α) (l : List α) :
    (l.destutter' (· ≠ ·) a).getLast? = (a :: l).getLast? := by
  induction l generalizing a with
  | nil => rfl
  | cons b l ih =>
    by_cases h : a = b
    · rw [List.destutter'_cons_neg _ (not_not.2 h), ih, h, List.getLast?_cons_cons]
    · rw [List.destutter'_cons_pos _ h, List.getLast?_cons_cons, ← ih b]
      obtain ⟨c, t, hl⟩ := List.exists_cons_of_ne_nil (List.destutter'_ne_nil (R := (· ≠ ·)) (a := b) l)
      rw [hl, List.getLast?_cons_cons]

/-- The last of some equal neighbours is as good as the first. -/
theorem getLast?_destutter (l : List α) : (l.destutter (· ≠ ·)).getLast? = l.getLast? := by
  cases l with
  | nil => rfl
  | cons a l => exact getLast?_destutter' a l

theorem destutter'_concat (a : α) (l : List α) (x : α) :
    (l ++ [x]).destutter' (· ≠ ·) a =
      if (a :: l).getLast? = some x then l.destutter' (· ≠ ·) a
      else l.destutter' (· ≠ ·) a ++ [x] := by
  induction l generalizing a with
  | nil =>
    by_cases h : a = x
    · simp [h]
    · simp [h]
  | cons b l ih =>
    rw [List.cons_append, List.getLast?_cons_cons]
    by_cases h : a = b
    · rw [List.destutter'_cons_neg _ (not_not.2 h), List.destutter'_cons_neg _ (not_not.2 h), ih, h]
    · rw [List.destutter'_cons_pos _ h, List.destutter'_cons_pos _ h, ih]
      split <;> rfl

/-- One more element is dropped if it is equal to the last one. -/
theorem destutter_concat (l : List α) (x : α) :
    (l ++ [x]).destutter (· ≠ ·) =
      if l.getLast? = some x then l.destutter (· ≠ ·) else l.destutter (· ≠ ·) ++ [x] := by
  cases l with
  | nil => rfl
  | cons a l => exact destutter'_concat a l x

/-- What comes first and not again is not met again when equal neighbours are dropped. -/
theorem destutter'_eq_cons_of_not_mem {a : α} {l : List α} (h : a ∉ l) :
    ∃ t, l.destutter' (· ≠ ·) a = a :: t ∧ a ∉ t := by
  cases l with
  | nil => exact ⟨[], rfl, List.not_mem_nil⟩
  | cons b l =>
    have hab : a ≠ b := List.ne_of_not_mem_cons h
    exact ⟨_, List.destutter'_cons_pos _ hab, fun ha => h ((List.destutter'_sublist _ _ b).subset ha)⟩

end

/-! ### What is written -/

namespace Session

theorem currentLine_pushLine (s : Session) (line : Nat) :
    (s.pushLine line).currentLine = s.currentLine := by
  unfold pushLine
  split <;> rfl

theorem lastLines_pushLine (s : Session) (line : Nat) :
    (s.pushLine line).lastLines =
      if s.lastLines.back? = some line then s.lastLines else s.lastLines.push line := by
  unfold pushLine
  split <;> rfl

/-- What is pushed depends on the history only. -/
theorem lastLines_pushLine_congr {s s' : Session} (h : s'.lastLines = s.lastLines) (line : Nat) :
    (s'.pushLine line).lastLines = (s.pushLine line).lastLines := by
  rw [lastLines_pushLine, lastLines_pushLine, h]

/-- A history of lines without equal neighbours is one of one line more after that was pushed. -/
theorem history_pushLine {s : Session} {lines : List Nat}
    (h : s.lastLines.toList = lines.destutter (· ≠ ·)) (line : Nat) :
    (s.pushLine line).lastLines.toList = (lines ++ [line]).destutter (· ≠ ·) := by
  have hlast : s.lastLines.back? = lines.getLast? := by
    rw [← Array.getLast?_toList, h, getLast?_destutter]
  rw [lastLines_pushLine, destutter_concat, hlast, ← h]
  split
  · rfl
  · exact Array.toList_push

end Session

namespace Debugger

/-- Where nothing but the journal changes, or breakpoints do, the cursor stays right. -/
theorem currentLine_of_same {d d' : Debugger} (h : d.session.currentLine = d.line)
    (hs : d'.session = d.session) (hm : d'.machine = d.machine) :
    d'.session.currentLine = d'.line := by
  rw [hs, h, line, line, hm]

theorem currentLine_exec {d : Debugger} (h : d.session.currentLine = d.line) (text : String) :
    (d.exec text).1.session.currentLine = (d.exec text).1.line := by
  have hline : (d.machine.evaluate text).machine.line = d.line :=
    congrArg (fun f : Frame => f.program.lineAt f.pc) (d.machine.frame_evaluate text)
  unfold exec
  split
  · exact h
  · exact (Session.currentLine_pushLine _ _).trans (h.trans hline.symm)

/-- **An action leaves the cursor on the line at the counter.** -/
theorem currentLine_act {d : Debugger} (h : d.session.currentLine = d.line) (a : Action) :
    (d.act a).1.session.currentLine = (d.act a).1.line := by
  cases a with
  | command c =>
    cases c with
    | next =>
      show (d.tell _).next.1.session.currentLine = _
      rw [session_next]
      exact Session.currentLine_pushLine _ _
    | resume =>
      show (d.tell _).resume.1.session.currentLine = _
      rw [session_resume]
      exact Session.currentLine_pushLine _ _
    | exec text => exact currentLine_exec (d := d.tell _) h text
    | print x => exact currentLine_of_same h (session_print (d.tell _) x) (machine_print (d.tell _) x)
    | stepIn | stepOut | list => exact h
  | setBreakpoint b =>
    exact currentLine_of_same h (d.session_setBreakpoint b) (d.machine_setBreakpoint b)
  | clearBreakpoint b =>
    exact currentLine_of_same h (d.session_clearBreakpoint b) (d.machine_clearBreakpoint b)
  | reactivate => exact h
  | runToPause => exact congrArg Session.currentLine d.session_runToPause

theorem lastLines_exec (d : Debugger) (text : String) :
    (d.exec text).1.session.lastLines =
      if text.toList.any (!Text.isBlank ·) then (d.session.pushLine d.line).lastLines
      else d.session.lastLines := by
  have hline : (d.machine.evaluate text).machine.line = d.line :=
    congrArg (fun f : Frame => f.program.lineAt f.pc) (d.machine.frame_evaluate text)
  unfold exec
  rw [Text.isEmpty_trim, ← List.not_all_eq_any_not]
  cases text.toList.all Text.isBlank with
  | true => rfl
  | false =>
    -- the line is looked up after the evaluation, which has put the frame back
    show (d.session.pushLine (d.machine.evaluate text).machine.line).lastLines = _
    rw [hline]
    rfl

/-- **An action that is recorded appends the line it is given on**, unless that is the last one in the
history, and any other action appends nothing. -/
theorem lastLines_act (d : Debugger) (a : Action) :
    (d.act a).1.session.lastLines =
      if a.recorded then (d.session.pushLine d.line).lastLines else d.session.lastLines := by
  cases a with
  | command c =>
    cases c with
    | next =>
      show (d.tell _).next.1.session.lastLines = (d.session.pushLine d.line).lastLines
      rw [session_next]
      refine Session.lastLines_pushLine_congr ?_ d.line
      rfl
    | resume =>
      show (d.tell _).resume.1.session.lastLines = (d.session.pushLine d.line).lastLines
      rw [session_resume]
      refine Session.lastLines_pushLine_congr ?_ d.line
      rfl
    | exec text => exact lastLines_exec (d.tell _) text
    | print x => exact congrArg Session.lastLines (session_print (d.tell _) x)
    | stepIn | stepOut | list => rfl
  | setBreakpoint b => exact congrArg Session.lastLines (d.session_setBreakpoint b)
  | clearBreakpoint b => exact congrArg Session.lastLines (d.session_clearBreakpoint b)
  | reactivate => rfl
  | runToPause =>
    show d.runToPause.1.session.lastLines = d.session.lastLines
    rw [session_runToPause]

/-! ### Whole sessions -/

/-- The lines at the counter when the recorded ones of actions are given, in their order. -/
def recordedLines (d : Debugger) : List Action → List Nat
  | [] => []
  | a :: as => (if a.recorded then [d.line] else []) ++ (d.act a).1.recordedLines as

theorem currentLine_actAll {d : Debugger} (h : d.session.currentLine = d.line)
    (actions : List Action) :
    (d.actAll actions).1.session.currentLine = (d.actAll actions).1.line := by
  induction actions generalizing d with
  | nil => exact h
  | cons a actions ih => exact ih (currentLine_act h a)

/-- The history grows by the lines of the recorded actions, without equal neighbours. -/
theorem lastLines_actAll {d : Debugger} {lines : List Nat}
    (h : d.session.lastLines.toList = lines.destutter (· ≠ ·)) (actions : List Action) :
    (d.actAll actions).1.session.lastLines.toList =
      (lines ++ d.recordedLines actions).destutter (· ≠ ·) := by
  induction actions generalizing d lines with
  | nil =>
    rw [recordedLines, List.append_nil]
    exact h
  | cons a actions ih =>
    have hact := d.lastLines_act a
    rw [recordedLines, ← List.append_assoc]
    refine ih ?_
    rw [hact]
    split
    · exact Session.history_pushLine h d.line
    · rw [List.append_nil]
      exact h

theorem recordedLines_pos {line : Nat} (d : Debugger) (actions : List Action)
    (h : line ∈ d.recordedLines actions) : 0 < line := by
  induction actions generalizing d with
  | nil => cases h
  | cons a actions ih =>
    rcases List.mem_append.1 h with h | h
    · split at h
      · rw [List.mem_singleton.1 h]
        exact Program.lineAt_pos _ _
      · cases h
    · exact ih _ h

end Debugger

/-- What the cursor and the history of a debugger are after `actions`. The cursor is on the line of the
instruction at the counter. The history is zero and then the lines of the recorded actions, less each
that is equal to the one before it; zero is in it once, at its beginning. One more action that is not
recorded leaves it as it is, whatever comes of that action. -/
structure Debugger.KeepsHistory (d : Debugger) (actions : List Action) : Prop where
  cursor : (d.actAll actions).1.session.currentLine =
    d.machine.frame.program.lineAt (d.actAll actions).1.machine.frame.pc
  history : (d.actAll actions).1.session.lastLines.toList =
    (0 :: d.recordedLines actions).destutter (· ≠ ·)
  zero : ∃ lines, (d.actAll actions).1.session.lastLines.toList = 0 :: lines ∧ 0 ∉ lines
  unrecorded : ∀ a, a.recorded = false →
    (d.actAll (actions ++ [a])).1.session.lastLines = (d.actAll actions).1.session.lastLines

/-- **The cursor is on the present line and the history tells where commands were given**, whatever is
done to a debugger and whether it succeeds or fails. -/
theorem cursor_and_history (m : Machine) (options : ListOptions) (actions : List Action) :
    (Debugger.start m options).KeepsHistory actions := by
  let d := Debugger.start m options
  have hstart : d.session.lastLines.toList = [0].destutter (· ≠ ·) := rfl
  have hhistory : (d.actAll actions).1.session.lastLines.toList =
      (0 :: d.recordedLines actions).destutter (· ≠ ·) := Debugger.lastLines_actAll hstart actions
  refine ⟨?_, hhistory, ?_, fun a ha => ?_⟩
  · have hcursor := Debugger.currentLine_actAll (d := d) rfl actions
    rw [Debugger.line, Machine.line, Debugger.program_actAll] at hcursor
    exact hcursor
  · rw [hhistory]
    exact destutter'_eq_cons_of_not_mem fun hzero =>
      Nat.lt_irrefl 0 (Debugger.recordedLines_pos d actions hzero)
  · rw [Debugger.actAll_append]
    exact (Debugger.lastLines_act _ a).trans (if_neg (by rw [ha]; exact Bool.false_ne_true))

end ScriptDebug
