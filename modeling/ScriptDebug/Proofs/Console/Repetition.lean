/-
# Blank lines repeat

At the console a blank line repeats the last command, so it could as well be typed as
the last line that was understood as a command (`Console.expand`): a conversation over
the lines so expanded is the same one (`Conversation.course_expandAfter`). What the
conversation keeps for that is a command and not a line, and what a line means depends
on the file that is current. It is the same file all along (`Console.filename_dispatch`),
so the line would be understood as that command again (`Conversation.Follows.next`).

Without blank lines a conversation is told by the commands among its lines alone: those
up to the first `quit` are carried out one after the other, and the exit code is that of
this `quit` (`Conversation.course_of_commands`). A line that is not understood is none
of them, and no later line is understood otherwise for it (`blank_lines_repeat`).

Key definitions: `Console.expand`, `Console.Course`, `Conversation.course`,
`Console.upToQuit`, `Debugger.RepeatsOnBlank`.
Key theorems: `Conversation.answerAll_eq`, `Conversation.Follows.next`,
`Conversation.course_expandAfter`, `Conversation.course_of_commands`,
`blank_lines_repeat`.
-/
import ScriptDebug.Console.Conversation
import ScriptDebug.Proofs.Console.Typing
import ScriptDebug.Proofs.Debugger.Gates

namespace ScriptDebug
namespace Console

/-! ### Lines that are commands -/

instance (s : String) : Decidable (Blank s) :=
  inferInstanceAs (Decidable (∀ c ∈ s.toList, Text.isBlank c = true))

/-- The command that a line is understood as, if it is. -/
def command? (file line : String) : Option Command :=
  match Command.ofLine line file with
  | .ok command => command
  | .error _ => none

/-- Blank lines are those that ask for nothing. -/
theorem ofLine_eq_none_iff {file line : String} :
    Command.ofLine line file = .ok none ↔ Blank line := by
  have hempty : (Text.trim line.toList).isEmpty = true ↔ Blank line := by
    rw [List.isEmpty_iff, Text.trim_eq_nil_iff]
    rfl
  rw [← hempty]
  unfold Command.ofLine
  dsimp only
  split
  · rename_i he
    exact iff_of_true rfl he
  · rename_i hne
    refine iff_of_false (fun h => ?_) hne
    split at h
    · cases h
    · rename_i entry _
      generalize entry.kind.command file _ = outcome at h
      cases outcome <;> cases h

theorem command?_of_blank {file line : String} (h : Blank line) : command? file line = none := by
  rw [command?, ofLine_eq_none_iff.2 h]

theorem command?_of_error {file line : String} {e : DebugError}
    (h : Command.ofLine line file = .error e) : command? file line = none := by
  rw [command?, h]

/-- The last line that is understood as a command. -/
def lastLine? (file : String) (lines : List String) : Option String :=
  (lines.filter fun line => (command? file line).isSome).getLast?

theorem lastLine?_concat (file : String) (lines : List String) (line : String) :
    lastLine? file (lines ++ [line]) =
      if (command? file line).isSome then some line else lastLine? file lines := by
  unfold lastLine?
  rw [List.filter_append, List.filter_singleton]
  cases (command? file line).isSome with
  | true => exact List.getLast?_concat
  | false => exact congrArg List.getLast? (List.append_nil _)

theorem isSome_of_lastLine? {file held : String} {lines : List String}
    (h : lastLine? file lines = some held) : (command? file held).isSome = true :=
  (List.mem_filter.1 (List.mem_of_getLast? h)).2

/-! ### Blank lines in full -/

/-- Puts in the place of each blank line the last line before it that is understood as a command, and
nothing if there is none. `before` are the lines before. -/
def expandAfter (file : String) (before : List String) : List String → List String
  | [] => []
  | line :: lines =>
    (if Blank line then (lastLine? file before).toList else [line]) ++
      expandAfter file (before ++ [line]) lines

def expand (file : String) (lines : List String) : List String := expandAfter file [] lines

/-- The commands of lines, with the repeated ones. -/
def commands (file : String) (lines : List String) : List Command :=
  (expand file lines).filterMap (command? file)

/-- No line is left blank. -/
theorem not_blank_of_mem_expandAfter {file : String} {before lines : List String} :
    ∀ line ∈ expandAfter file before lines, ¬ Blank line := by
  induction lines generalizing before with
  | nil => exact nofun
  | cons line lines ih =>
    rw [expandAfter]
    refine List.forall_mem_append.2 ⟨fun other hother => ?_, ih⟩
    split at hother
    · intro hblank
      have hsome := isSome_of_lastLine? (Option.mem_toList.1 hother)
      rw [command?_of_blank hblank] at hsome
      cases hsome
    · rename_i hblank
      rwa [List.mem_singleton.1 hother]

/-- What is repeated depends on the last command before only. -/
theorem expandAfter_congr {file : String} {before before' : List String}
    (h : lastLine? file before = lastLine? file before') (lines : List String) :
    expandAfter file before lines = expandAfter file before' lines := by
  induction lines generalizing before before' with
  | nil => rfl
  | cons line lines ih =>
    have hnext : lastLine? file (before ++ [line]) = lastLine? file (before' ++ [line]) := by
      rw [lastLine?_concat, lastLine?_concat, h]
    rw [expandAfter, expandAfter, h, ih hnext]

theorem expandAfter_append (file : String) (before lines lines' : List String) :
    expandAfter file before (lines ++ lines') =
      expandAfter file before lines ++ expandAfter file (before ++ lines) lines' := by
  induction lines generalizing before with
  | nil => rw [List.append_nil, expandAfter, List.nil_append, List.nil_append]
  | cons line lines ih =>
    rw [List.cons_append, expandAfter, expandAfter, ih, List.append_assoc, List.append_assoc]
    rfl

/-- A line that is not understood is no command and is not repeated. -/
theorem commands_of_error {file line : String} {e : DebugError}
    (h : Command.ofLine line file = .error e) (before after : List String) :
    commands file (before ++ line :: after) = commands file (before ++ after) := by
  have hnone := command?_of_error h
  have hblank : ¬ Blank line := fun hblank => by
    rw [ofLine_eq_none_iff.2 hblank] at h
    cases h
  have hlast : lastLine? file (before ++ [line]) = lastLine? file before := by
    rw [lastLine?_concat, hnone]
    rfl
  unfold commands expand
  rw [expandAfter_append, expandAfter_append, expandAfter, if_neg hblank, List.nil_append,
    expandAfter_congr hlast, List.filterMap_append, List.filterMap_append, List.filterMap_append,
    List.filterMap_cons, hnone]
  rfl

/-! ### Conversations -/

theorem Output.append_none (o : Output) : o.append .none = o := by
  show (⟨o.out ++ "", o.err ++ ""⟩ : Output) = o
  rw [String.append_empty, String.append_empty]

/-- What a conversation comes to: the commands that are carried out with what they are answered, the
debugger that is left, the exit code and what is written. -/
structure Course where
  dispatched : List (Command × Answer)
  debugger : Debugger
  code : Int
  output : Output

namespace Conversation

/-- The command that a line has carried out, if any. -/
def heard (c : Conversation) (line : String) : Option Command :=
  match Command.ofLine line c.debugger.filename with
  | .ok (some command) => some command
  | .ok none => c.last
  | .error _ => none

/-- What is written of a line that has no command carried out. -/
def complaint (c : Conversation) (line : String) : Output :=
  match Command.ofLine line c.debugger.filename with
  | .ok _ => .none
  | .error e => .failure e

/-- The course of a conversation over lines, after what was written before. -/
def course (c : Conversation) (o : Output) : List String → Course
  | [] => ⟨[], c.debugger, 0, o⟩
  | line :: lines =>
    match c.heard line with
    | none => c.course (o.append (c.complaint line)) lines
    | some command =>
      match dispatch c.debugger command with
      | (d, .quit code) => ⟨[(command, .quit code)], d, code, o⟩
      | (d, .report r) =>
        let rest := course ⟨d, some command⟩ (o.append (reportOutput command r d)) lines
        { rest with dispatched := (command, .report r) :: rest.dispatched }

variable {c : Conversation} {o : Output} {line : String} {lines : List String}

theorem course_unheard (h : c.heard line = none) :
    c.course o (line :: lines) = c.course (o.append (c.complaint line)) lines := by
  simp only [course, h]

theorem course_report {command : Command} {d : Debugger} {r : Report}
    (h : c.heard line = some command) (hd : dispatch c.debugger command = (d, .report r)) :
    c.course o (line :: lines) =
      let rest := course ⟨d, some command⟩ (o.append (reportOutput command r d)) lines
      { rest with dispatched := (command, .report r) :: rest.dispatched } := by
  simp only [course, h, hd]

theorem course_quit {command : Command} {d : Debugger} {code : Int}
    (h : c.heard line = some command) (hd : dispatch c.debugger command = (d, .quit code)) :
    c.course o (line :: lines) = ⟨[(command, .quit code)], d, code, o⟩ := by
  simp only [course, h, hd]

/-- A line is answered by what it has carried out. -/
theorem answer_eq (c : Conversation) (line : String) :
    c.answer line = match c.heard line with
      | some command => c.carryOut command
      | none => .goOn c (c.complaint line) := by
  unfold answer heard complaint
  cases Command.ofLine line c.debugger.filename with
  | ok command => cases command <;> rfl
  | error e => rfl

/-- **The lines are answered in that course.** -/
theorem answerAll_eq (c : Conversation) (o : Output) (lines : List String) :
    c.answerAll o lines = ((c.course o lines).code, (c.course o lines).output) := by
  induction lines generalizing c o with
  | nil => rfl
  | cons line lines ih =>
    cases h : c.heard line with
    | none =>
      simp only [answerAll, answer_eq, course_unheard h, h]
      exact ih c _
    | some command =>
      rcases hd : dispatch c.debugger command with ⟨d, r | code⟩
      · simp only [answerAll, answer_eq, course_report h hd, h, carryOut, hd]
        exact ih ⟨d, some command⟩ _
      · simp only [answerAll, answer_eq, course_quit h hd, h, carryOut, hd]

/-- The conversation behind a line that does not end it. -/
def next (c : Conversation) (line : String) : Conversation :=
  match c.heard line with
  | none => c
  | some command => ⟨(dispatch c.debugger command).1, some command⟩

theorem next_of_heard {command : Command} (h : c.heard line = some command) :
    c.next line = ⟨(dispatch c.debugger command).1, some command⟩ := by
  simp only [next, h]

theorem next_of_unheard (h : c.heard line = none) : c.next line = c := by
  simp only [next, h]

/-- Two lines that are heard alike can stand for each other. -/
theorem course_congr {line' : String} {lines' : List String} (hheard : c.heard line = c.heard line')
    (hcomplaint : c.complaint line = c.complaint line')
    (htail : ∀ o, (c.next line).course o lines = (c.next line).course o lines') (o : Output) :
    c.course o (line :: lines) = c.course o (line' :: lines') := by
  cases h : c.heard line with
  | none =>
    rw [course_unheard h, course_unheard (hheard ▸ h), ← hcomplaint]
    rw [next_of_unheard h] at htail
    exact htail _
  | some command =>
    rw [next_of_heard h] at htail
    rcases hd : dispatch c.debugger command with ⟨d, r | code⟩
    · rw [hd] at htail
      rw [course_report h hd, course_report (hheard ▸ h) hd, htail]
    · rw [course_quit h hd, course_quit (hheard ▸ h) hd]

/-! ### What is heard -/

theorem heard_of_blank (h : Blank line) : c.heard line = c.last := by
  rw [heard, ofLine_eq_none_iff.2 h]

theorem complaint_of_blank (h : Blank line) : c.complaint line = .none := by
  rw [complaint, ofLine_eq_none_iff.2 h]

theorem heard_of_not_blank (h : ¬ Blank line) :
    c.heard line = command? c.debugger.filename line := by
  unfold heard command?
  cases hline : Command.ofLine line c.debugger.filename with
  | ok command =>
    cases command with
    | none => exact absurd (ofLine_eq_none_iff.1 hline) h
    | some command => rfl
  | error e => rfl

theorem complaint_of_command (h : (command? c.debugger.filename line).isSome = true) :
    c.complaint line = .none := by
  unfold command? at h
  unfold complaint
  cases hline : Command.ofLine line c.debugger.filename with
  | ok command => rfl
  | error e =>
    rw [hline] at h
    cases h

theorem last_next (c : Conversation) (line : String) :
    (c.next line).last = (c.heard line).or c.last := by
  cases h : c.heard line with
  | none => rw [next_of_unheard h, Option.none_or]
  | some command => rw [next_of_heard h, Option.some_or]

end Conversation

/-- **No command changes the program**, and so the current file stays. -/
theorem filename_dispatch (d : Debugger) (c : Command) : (dispatch d c).1.filename = d.filename := by
  have hprogram : (dispatch d c).1.machine.frame.program = d.machine.frame.program := by
    cases c with
    | setBreakpoint b => exact d.program_act (.setBreakpoint b)
    | clearBreakpoint b => exact d.program_act (.clearBreakpoint b)
    | breakpoints | help | quit => rfl
    | debug c =>
      have hrearm (d : Debugger) : (rearm c d).machine = d.machine := by
        unfold rearm
        split <;> rfl
      exact (congrArg (·.frame.program) (hrearm _)).trans (d.program_act (.command c))
  rw [Debugger.filename, Debugger.filename, hprogram]

namespace Conversation

/-- The conversation stands behind the lines `before`: the current file is still `file`, and the
command to repeat is the last one among those lines. -/
structure Follows (c : Conversation) (file : String) (before : List String) : Prop where
  filename : c.debugger.filename = file
  last : c.last = (lastLine? file before).bind (command? file)

variable {c : Conversation} {file : String} {before : List String}

theorem Follows.start (d : Debugger) : (start d).Follows d.filename [] := ⟨rfl, rfl⟩

/-- **One more line keeps to that.** -/
theorem Follows.next (h : c.Follows file before) (line : String) :
    (c.next line).Follows file (before ++ [line]) := by
  refine ⟨?_, ?_⟩
  · cases hheard : c.heard line with
    | none => rw [next_of_unheard hheard, h.filename]
    | some command => rw [next_of_heard hheard, filename_dispatch, h.filename]
  · rw [last_next, lastLine?_concat]
    by_cases hblank : Blank line
    · rw [heard_of_blank hblank, command?_of_blank hblank, Option.or_self, h.last]
      rfl
    · rw [heard_of_not_blank hblank, h.filename]
      cases hcommand : command? file line with
      | none => exact h.last
      | some command => exact hcommand.symm

/-- **A conversation is the same over lines where blank ones are written in full.** -/
theorem course_expandAfter (h : c.Follows file before) (o : Output) (lines : List String) :
    c.course o (expandAfter file before lines) = c.course o lines := by
  induction lines generalizing c before o with
  | nil => rfl
  | cons line lines ih =>
    have htail (o : Output) : (c.next line).course o lines =
        (c.next line).course o (expandAfter file (before ++ [line]) lines) :=
      (ih (h.next line) o).symm
    rw [expandAfter]
    by_cases hblank : Blank line
    · rw [if_pos hblank]
      have hheard : c.heard line = (lastLine? file before).bind (command? file) :=
        (heard_of_blank hblank).trans h.last
      cases hlast : lastLine? file before with
      | none =>
        -- there is nothing to repeat, and nothing is written
        rw [hlast] at hheard
        rw [next_of_unheard hheard] at htail
        rw [course_unheard hheard, complaint_of_blank hblank, Output.append_none, htail]
        rfl
      | some held =>
        have hcommand := isSome_of_lastLine? hlast
        have hheld : ¬ Blank held := fun hheld => by
          rw [command?_of_blank hheld] at hcommand
          cases hcommand
        rw [hlast] at hheard
        refine (course_congr ?_ ?_ htail o).symm
        · rw [hheard, heard_of_not_blank hheld, h.filename]
          rfl
        · rw [complaint_of_blank hblank, complaint_of_command (h.filename ▸ hcommand)]
    · rw [if_neg hblank]
      exact (course_congr rfl rfl htail o).symm

end Conversation

/-! ### Up to the first `quit` -/

/-- The exit code of a `quit`. -/
def Command.exit? : Command → Option Int
  | .quit code => some code
  | _ => none

/-- The commands up to the first `quit` and with it. -/
def upToQuit (cs : List Command) : List Command := cs.take (cs.findIdx (·.exit?.isSome) + 1)

theorem upToQuit_quit (code : Int) (cs : List Command) : upToQuit (.quit code :: cs) = [.quit code] := by
  rw [upToQuit, List.findIdx_cons]
  rfl

theorem upToQuit_cons {c : Command} (h : c.exit? = none) (cs : List Command) :
    upToQuit (c :: cs) = c :: upToQuit cs := by
  rw [upToQuit, List.findIdx_cons, h]
  rfl

/-- The answers to commands that are carried out one after the other. -/
def transcript (d : Debugger) : List Command → List (Command × Answer)
  | [] => []
  | c :: cs => (c, (dispatch d c).2) :: transcript (dispatch d c).1 cs

/-- A `quit` leaves the debugger as it is and ends the session, any other command is reported on. -/
theorem dispatch_cases (d : Debugger) (c : Command) :
    (∃ code, c = .quit code ∧ dispatch d c = (d, .quit code)) ∨
      c.exit? = none ∧ ∃ d' r, dispatch d c = (d', .report r) := by
  cases c with
  | quit code => exact Or.inl ⟨code, rfl, rfl⟩
  | setBreakpoint | clearBreakpoint | breakpoints | debug | help => exact Or.inr ⟨rfl, _, _, rfl⟩

/-- The course carries out the commands up to the first `quit` one after the other. The exit code is
that of this `quit`, and zero if there is none. -/
structure Course.CarriesOut (r : Course) (d : Debugger) (cs : List Command) : Prop where
  dispatched : r.dispatched = transcript d (upToQuit cs)
  debugger : r.debugger = dispatchAll d (upToQuit cs)
  code : r.code = (cs.findSome? Command.exit?).getD 0

/-- Courses that carry out the same commands differ in what is written only. -/
theorem Course.CarriesOut.eq {r r' : Course} {d : Debugger} {cs : List Command}
    (h : r.CarriesOut d cs) (h' : r'.CarriesOut d cs) : r = { r' with output := r.output } := by
  cases r
  cases r'
  simp only [Course.mk.injEq, and_true]
  exact ⟨h.dispatched.trans h'.dispatched.symm, h.debugger.trans h'.debugger.symm,
    h.code.trans h'.code.symm⟩

/-- **Over lines that are not blank the commands among them are carried out.** -/
theorem Conversation.course_of_commands {c : Conversation} {file : String}
    (hfile : c.debugger.filename = file) {lines : List String}
    (hlines : ∀ line ∈ lines, ¬ Blank line) (o : Output) :
    (c.course o lines).CarriesOut c.debugger (lines.filterMap (command? file)) := by
  induction lines generalizing c o with
  | nil => exact ⟨rfl, rfl, rfl⟩
  | cons line lines ih =>
    obtain ⟨hblank, hlines⟩ := List.forall_mem_cons.1 hlines
    have hheard : c.heard line = command? file line := hfile ▸ heard_of_not_blank hblank
    rw [List.filterMap_cons]
    cases hcommand : command? file line with
    | none =>
      rw [course_unheard (hheard.trans hcommand)]
      exact ih hfile hlines _
    | some command =>
      have hsome := hheard.trans hcommand
      rcases dispatch_cases c.debugger command with ⟨code, rfl, hd⟩ | ⟨hexit, d, r, hd⟩
      · rw [course_quit hsome hd]
        refine ⟨?_, ?_, rfl⟩
        · rw [upToQuit_quit]
          rfl
        · rw [upToQuit_quit]
          rfl
      · have hd₁ : (dispatch c.debugger command).1 = d := congrArg Prod.fst hd
        have hd₂ : (dispatch c.debugger command).2 = .report r := congrArg Prod.snd hd
        have hfile' : d.filename = file := by rw [← hd₁, filename_dispatch, hfile]
        obtain ⟨hdispatched, hdebugger, hcode⟩ :=
          ih (c := ⟨d, some command⟩) hfile' hlines (o.append (reportOutput command r d))
        rw [course_report hsome hd]
        refine ⟨?_, ?_, ?_⟩
        · rw [upToQuit_cons hexit, transcript, hd₁, hd₂, ← hdispatched]
        · rw [upToQuit_cons hexit, dispatchAll, hd₁, ← hdebugger]
        · rw [List.findSome?_cons, hexit]
          exact hcode

end Console

open Console in
/-- How a session of the debugger at the console stands to the lines it is given. What is answered is
the course of a conversation over them; it is the same, to the letter, over the lines where every blank
one is written in full. The commands of the lines so written are carried out in their order up to the
first `quit`, whose exit code it is that the session ends with, or zero if there is none. A line that is
not understood could be left out, wherever it stands: only what is written is different. -/
structure Debugger.RepeatsOnBlank (d : Debugger) : Prop where
  answered : ∀ o lines, (Conversation.start d).answerAll o lines =
    (((Conversation.start d).course o lines).code, ((Conversation.start d).course o lines).output)
  expanded : ∀ o lines, (Conversation.start d).course o (expand d.filename lines) =
    (Conversation.start d).course o lines
  carried : ∀ o lines,
    ((Conversation.start d).course o lines).CarriesOut d (commands d.filename lines)
  unread : ∀ o before line after e, Command.ofLine line d.filename = .error e →
    ∃ output, (Conversation.start d).course o (before ++ after) =
      { (Conversation.start d).course o (before ++ line :: after) with output }

/-- **Blank lines are repetitions and nothing else**, in every session at the console. -/
theorem blank_lines_repeat (d : Debugger) : d.RepeatsOnBlank := by
  have hexpanded (o : Console.Output) (lines : List String) :
      (Console.Conversation.start d).course o (Console.expand d.filename lines) =
        (Console.Conversation.start d).course o lines :=
    Console.Conversation.course_expandAfter (.start d) o lines
  have hcarried (o : Console.Output) (lines : List String) :
      ((Console.Conversation.start d).course o lines).CarriesOut d
        (Console.commands d.filename lines) := by
    rw [← hexpanded]
    exact Console.Conversation.course_of_commands rfl Console.not_blank_of_mem_expandAfter o
  exact
    { answered := Console.Conversation.answerAll_eq _
      expanded := hexpanded
      carried := hcarried
      unread := fun o before line after e he => by
        have hwith := hcarried o (before ++ line :: after)
        rw [Console.commands_of_error he] at hwith
        exact ⟨_, (hcarried o (before ++ after)).eq hwith⟩ }

end ScriptDebug
