/-
# The gates of a session

Who waits at the gate of a session is to go on when the program does. What a
command does to the gates and to the state of the session can be told from the
command alone (`Debugger.cycle_act`): `resume` releases the present gate,
`reactivate` puts a fresh one in its place, and nothing else touches a gate.

At the console a fresh gate is put in place exactly where `resume` leaves code to
run (`Console.cycle_dispatch`). So while there is code left the present gate is
closed, and every gate that was left behind is open: nobody waits for good
(`no_waiter_stranded`).

The state is written apart from the gate. `next` ends in the state `paused`
whatever the gate is, so behind a released gate the state says `paused` from the
first `next` on until `resume` or `reactivate` (`phase_follows_last_step`).

Key definitions: `Cycle`, `Cycle.after`, `Console.dispatchAll`, `Cycle.Sound`,
`Action.Since`.
Key theorems: `Debugger.cycle_act`, `Console.cycle_dispatch`, `Console.sound_dispatch`,
`no_waiter_stranded`, `phase_follows_last_step`.
-/
import ScriptDebug.Console.Dispatch
import ScriptDebug.Proofs.Debugger.NextLine

namespace ScriptDebug

/-- What a session is paused by: its gates so far, the present one, and the state. -/
structure Cycle where
  gates : Gates
  gate : GateId
  phase : Phase

def Session.cycle (s : Session) : Cycle := ⟨s.gates, s.gate, s.phase⟩

namespace Cycle

def isReleased (c : Cycle) : Bool := c.gates.isReleased c.gate

def pause (c : Cycle) : Cycle := { c with phase := .paused }

def release (c : Cycle) : Cycle := { c with gates := c.gates.release c.gate, phase := .released }

def renew (c : Cycle) : Cycle := ⟨c.gates.grow, c.gates.next, .paused⟩

/-- The cycle after something was done to the debugger. -/
def after (c : Cycle) : Action → Cycle
  | .command .next => c.pause
  | .command .resume => c.release
  | .reactivate => c.renew
  | _ => c

end Cycle

/-! ### What the debugger does to its session -/

namespace Debugger

theorem cycle_pushLine (s : Session) (line : Nat) : (s.pushLine line).cycle = s.cycle := by
  unfold Session.pushLine
  split <;> rfl

/-- What `next` leaves of the session: the cursor is where the machine is, and the line that the
command was given on goes into the history. -/
theorem session_next (d : Debugger) :
    d.next.1.session =
      { ({ d.session with phase := .running, currentLine := d.next.1.line } : Session).pushLine d.line
        with phase := .paused } := by
  let began := d.setPhase .running
  let target := d.machine.frame.program.nextLine d.machine.frame.pc
  let r := if began.canRun then stepToLine began.remaining target began else (began, none)
  have hr : r.1.session = began.session := by
    by_cases hi : began.canRun = true
    · simp only [r, if_pos hi]
      exact (moved_stepToLine _ _ began).session
    · simp only [r, if_neg hi]
  show { ({ r.1.session with currentLine := r.1.line } : Session).pushLine d.line
    with phase := .paused } = _
  rw [hr]
  rfl

theorem cycle_next (d : Debugger) : d.next.1.session.cycle = d.session.cycle.pause := by
  rw [session_next]
  show (Session.pushLine _ d.line).cycle.pause = d.session.cycle.pause
  rw [cycle_pushLine]
  rfl

/-- What `resume` leaves of the session: what `next` does, behind a released gate. -/
theorem session_resume (d : Debugger) :
    d.resume.1.session =
      (({ d.session with phase := .running, currentLine := d.resume.1.line } : Session).pushLine
        d.line).release := by
  let began := d.setPhase .running
  have hoff := began.moved_runOff.session
  rcases hr : began.runOff with ⟨after, outcome⟩
  rw [hr] at hoff
  have htell : (after.tellStop outcome).session = began.session := by
    cases outcome <;> exact hoff
  have hresume : d.resume.1 =
      ((after.tellStop outcome).updateLine.withSession (·.pushLine d.line)).release := by
    unfold resume
    rw [show (d.setPhase .running).runOff = (after, outcome) from hr]
  rw [hresume]
  show (({ (after.tellStop outcome).session with currentLine := _ } : Session).pushLine _).release = _
  rw [htell]
  rfl

theorem cycle_resume (d : Debugger) : d.resume.1.session.cycle = d.session.cycle.release := by
  rw [session_resume]
  show (Session.pushLine _ d.line).cycle.release = d.session.cycle.release
  rw [cycle_pushLine]
  rfl

theorem cycle_exec (d : Debugger) (text : String) :
    (d.exec text).1.session.cycle = d.session.cycle := by
  unfold exec
  split
  · rfl
  · exact cycle_pushLine _ _

theorem session_print (d : Debugger) (x : String) : (d.print x).1.session = d.session := by
  have hresolve : (d.resolve x).1.session = d.session := by
    unfold resolve
    simp only
    split <;> rfl
  unfold print
  split
  · rfl
  · exact hresolve

theorem session_setBreakpoint (d : Debugger) (b : Breakpoint) :
    (d.setBreakpoint b).1.session = d.session := by
  unfold setBreakpoint
  split <;> rfl

theorem session_clearBreakpoint (d : Debugger) (b : Breakpoint) :
    (d.clearBreakpoint b).1.session = d.session := by
  unfold clearBreakpoint
  split <;> rfl

theorem machine_setBreakpoint (d : Debugger) (b : Breakpoint) :
    (d.setBreakpoint b).1.machine = d.machine := by
  unfold setBreakpoint
  split <;> rfl

theorem machine_clearBreakpoint (d : Debugger) (b : Breakpoint) :
    (d.clearBreakpoint b).1.machine = d.machine := by
  unfold clearBreakpoint
  split <;> rfl

/-- What the first positioning leaves of the session: only the cursor moves. -/
theorem session_runToPause (d : Debugger) :
    d.runToPause.1.session = { d.session with currentLine := d.runToPause.1.line } := by
  show ({ d.runUpTo.1.session with currentLine := d.runUpTo.1.line } : Session) = _
  rw [d.moved_runUpTo.session]
  rfl

theorem cycle_runToPause (d : Debugger) : d.runToPause.1.session.cycle = d.session.cycle := by
  rw [session_runToPause]
  rfl

/-- **The cycle after an action depends on the action only.** -/
theorem cycle_act (d : Debugger) (a : Action) :
    (d.act a).1.session.cycle = d.session.cycle.after a := by
  cases a with
  | command c =>
    cases c with
    | next => exact cycle_next (d.tell _)
    | resume => exact cycle_resume (d.tell _)
    | exec text => exact cycle_exec (d.tell _) text
    | print x => exact congrArg Session.cycle (session_print (d.tell _) x)
    | stepIn | stepOut | list => rfl
  | setBreakpoint b => exact congrArg Session.cycle (d.session_setBreakpoint b)
  | clearBreakpoint b => exact congrArg Session.cycle (d.session_clearBreakpoint b)
  | reactivate => rfl
  | runToPause => exact d.cycle_runToPause

/-! ### Instructions that are left were left before -/

theorem canRun_of_next {d : Debugger} (h : d.next.1.canRun = true) : d.canRun = true := by
  by_contra hi
  let began := d.setPhase .running
  have hbegan : ¬ began.canRun = true := hi
  have hstays : d.next.1.machine = d.machine := by
    unfold next
    simp only
    rw [if_neg hbegan]
    rfl
  rw [canRun, hstays] at h
  exact hi h

theorem canRun_exec (d : Debugger) (text : String) : (d.exec text).1.canRun = d.canRun := by
  unfold exec
  split
  · rfl
  · exact congrArg (fun f : Frame => decide (f.pc < f.program.code.size))
      (d.machine.frame_evaluate text)

theorem canRun_print (d : Debugger) (x : String) : (d.print x).1.canRun = d.canRun := by
  rw [canRun, d.machine_print x]
  rfl

end Debugger

/-! ### At the console -/

namespace Console

/-- Carries out commands one after the other. -/
def dispatchAll (d : Debugger) : List Command → Debugger
  | [] => d
  | c :: cs => dispatchAll (dispatch d c).1 cs

theorem dispatchAll_append (d : Debugger) (cs cs' : List Command) :
    dispatchAll d (cs ++ cs') = dispatchAll (dispatchAll d cs) cs' := by
  induction cs generalizing d with
  | nil => rfl
  | cons c cs ih => exact ih _

theorem dispatchAll_concat (d : Debugger) (cs : List Command) (c : Command) :
    dispatchAll d (cs ++ [c]) = (dispatch (dispatchAll d cs) c).1 :=
  dispatchAll_append d cs [c]

end Console

/-- The cycle after a command of the console, where `left` says whether there are instructions left
then: a cycle that `resume` ends is followed by a new one while there are. -/
def Cycle.afterCommand (c : Cycle) (left : Bool) : Console.Command → Cycle
  | .debug .next => c.pause
  | .debug .resume => if left then c.release.renew else c.release
  | _ => c

namespace Console

theorem cycle_dispatch (d : Debugger) (c : Command) :
    (dispatch d c).1.session.cycle =
      d.session.cycle.afterCommand (dispatch d c).1.canRun c := by
  cases c with
  | setBreakpoint b => exact congrArg Session.cycle (d.session_setBreakpoint b)
  | clearBreakpoint b => exact congrArg Session.cycle (d.session_clearBreakpoint b)
  | breakpoints | help | quit => rfl
  | debug c =>
    cases c with
    | next => exact d.cycle_act (.command .next)
    | resume =>
      have hact : (d.run .resume).1.session.cycle = d.session.cycle.release :=
        d.cycle_act (.command .resume)
      show (rearm .resume (d.run .resume).1).session.cycle =
        if (rearm .resume (d.run .resume).1).canRun then _ else _
      by_cases hi : (d.run .resume).1.canRun = true
      · have hrearm : rearm .resume (d.run .resume).1 = (d.run .resume).1.reactivate :=
          if_pos (by simpa using hi)
        have hleft : (d.run .resume).1.reactivate.canRun = true := hi
        rw [hrearm, if_pos hleft, ← hact]
        rfl
      · have hrearm : rearm .resume (d.run .resume).1 = (d.run .resume).1 :=
          if_neg (by simpa using hi)
        rw [hrearm, if_neg hi, hact]
    | exec text => exact d.cycle_act (.command (.exec text))
    | print x => exact d.cycle_act (.command (.print x))
    | stepIn | stepOut | list => rfl

/-- Only `resume` can tell whether code was left before, and it need not: its cycle is over. -/
theorem canRun_of_dispatch {d : Debugger} {c : Command} (hc : c ≠ .debug .resume)
    (h : (dispatch d c).1.canRun = true) : d.canRun = true := by
  cases c with
  | setBreakpoint b =>
    exact (congrArg Machine.hasInstructions (d.machine_setBreakpoint b)).symm.trans h
  | clearBreakpoint b =>
    exact (congrArg Machine.hasInstructions (d.machine_clearBreakpoint b)).symm.trans h
  | breakpoints | help | quit => exact h
  | debug c =>
    cases c with
    | next => exact Debugger.canRun_of_next (d := d.tell _) h
    | resume => exact absurd rfl hc
    | exec text => exact ((d.tell (.command "exec" d.machine.frame.pc)).canRun_exec text).symm.trans h
    | print x => exact ((d.tell (.command "print" d.machine.frame.pc)).canRun_print x).symm.trans h
    | stepIn | stepOut | list => exact h

end Console

/-- How the gates of a session at the console stand, where `left` says whether there are instructions
left: the present gate is the newest and all before it are released; while instructions are left it is
not released and the session is paused; and the session is never found running. -/
structure Cycle.Sound (c : Cycle) (left : Bool) : Prop where
  newest : c.gate + 1 = c.gates.next
  behind : ∀ i < c.gate, c.gates.isReleased i = true
  waiting : left = true → c.isReleased = false ∧ c.phase = .paused
  between : c.phase ≠ .running

namespace Cycle.Sound

variable {c : Cycle} {left left' : Bool}

theorem start (m : Machine) (options : ListOptions) :
    (Debugger.start m options).session.cycle.Sound left where
  newest := rfl
  behind := nofun
  waiting _ := ⟨rfl, rfl⟩
  between := nofun

/-- Fewer instructions left ask for less. -/
theorem mono (h : c.Sound left) (hl : left' = true → left = true) : c.Sound left' :=
  { h with waiting := fun hleft => h.waiting (hl hleft) }

theorem pause (h : c.Sound left) : c.pause.Sound left where
  newest := h.newest
  behind := h.behind
  waiting hleft := ⟨(h.waiting hleft).1, rfl⟩
  between := nofun

theorem release (h : c.Sound left) : c.release.Sound false where
  newest := h.newest.trans (Gates.next_release _ _).symm
  behind i hi := Gates.isReleased_release_of (h.behind i hi) _
  waiting := nofun
  between := nofun

/-- The gate that a new cycle leaves behind has been released. -/
theorem renew (h : c.Sound left) : c.release.renew.Sound left' where
  newest := (Gates.next_grow _).symm
  behind i hi := by
    have hnext : i < c.gate + 1 := by
      rw [h.newest, ← Gates.next_release c.gates c.gate]
      exact hi
    show (c.gates.release c.gate).grow.isReleased i = true
    rw [Gates.isReleased_grow]
    rcases Nat.lt_or_eq_of_le (Nat.le_of_lt_succ hnext) with hlt | rfl
    · exact Gates.isReleased_release_of (h.behind i hlt) _
    · exact Gates.isReleased_release_self (h.newest ▸ Nat.lt_succ_self _)
  waiting _ := by
    refine ⟨?_, rfl⟩
    show (c.gates.release c.gate).grow.isReleased (c.gates.release c.gate).next = false
    rw [Gates.isReleased_grow]
    exact Gates.isReleased_of_next_le (Nat.le_refl _)
  between := nofun

end Cycle.Sound

namespace Console

/-- **Every command of the console keeps the gates sound.** -/
theorem sound_dispatch {d : Debugger} (h : d.session.cycle.Sound d.canRun) (c : Command) :
    (dispatch d c).1.session.cycle.Sound (dispatch d c).1.canRun := by
  rw [cycle_dispatch]
  by_cases hc : c = .debug .resume
  · subst hc
    cases (dispatch d (.debug .resume)).1.canRun with
    | true => exact h.renew
    | false => exact h.release
  · have hleft := canRun_of_dispatch (d := d) hc
    cases c with
    | setBreakpoint | clearBreakpoint | breakpoints | help | quit => exact h.mono hleft
    | debug c =>
      cases c with
      | next => exact h.pause.mono hleft
      | resume => exact absurd rfl hc
      | stepIn | stepOut | exec | print | list => exact h.mono hleft

theorem sound_dispatchAll {d : Debugger} (h : d.session.cycle.Sound d.canRun)
    (cs : List Command) : (dispatchAll d cs).session.cycle.Sound (dispatchAll d cs).canRun := by
  induction cs generalizing d with
  | nil => exact h
  | cons c cs ih => exact ih (sound_dispatch h c)

end Console

/-! ### From one command to the next -/

namespace Console

variable {d : Debugger}

/-- No command takes a release back. -/
theorem isReleased_dispatch {i : GateId} (h : d.session.gates.isReleased i = true) (c : Command) :
    (dispatch d c).1.session.gates.isReleased i = true := by
  show (dispatch d c).1.session.cycle.gates.isReleased i = true
  rw [cycle_dispatch]
  unfold Cycle.afterCommand
  split
  · exact h
  · have hrel : (d.session.cycle.release).gates.isReleased i = true :=
      Gates.isReleased_release_of h _
    split
    · show (d.session.cycle.release.gates.grow).isReleased i = true
      rw [Gates.isReleased_grow]
      exact hrel
    · exact hrel
  · exact h

theorem isReleased_dispatchAll {i : GateId} (h : d.session.gates.isReleased i = true)
    (cs : List Command) : (dispatchAll d cs).session.gates.isReleased i = true := by
  induction cs generalizing d with
  | nil => exact h
  | cons c cs ih => exact ih (isReleased_dispatch h c)

/-- Only `resume` touches gates. -/
theorem gates_dispatch {c : Command} (hc : c ≠ .debug .resume) :
    (dispatch d c).1.session.gates = d.session.gates ∧
      (dispatch d c).1.session.gate = d.session.gate := by
  have hcycle := cycle_dispatch d c
  have hsame : (d.session.cycle.afterCommand (dispatch d c).1.canRun c).gates = d.session.gates ∧
      (d.session.cycle.afterCommand (dispatch d c).1.canRun c).gate = d.session.gate := by
    unfold Cycle.afterCommand
    split
    · exact ⟨rfl, rfl⟩
    · exact absurd rfl hc
    · exact ⟨rfl, rfl⟩
  exact ⟨(congrArg Cycle.gates hcycle).trans hsame.1, (congrArg Cycle.gate hcycle).trans hsame.2⟩

/-- The gate that `resume` finds is released by it. -/
theorem isReleased_dispatch_resume (h : d.session.cycle.Sound d.canRun) :
    (dispatch d (.debug .resume)).1.session.gates.isReleased d.session.gate = true := by
  have hrel : d.session.cycle.release.gates.isReleased d.session.gate = true :=
    Gates.isReleased_release_self (h.newest ▸ Nat.lt_succ_self _)
  show (dispatch d (.debug .resume)).1.session.cycle.gates.isReleased _ = true
  rw [cycle_dispatch]
  unfold Cycle.afterCommand
  simp only
  split
  · show (d.session.cycle.release.gates.grow).isReleased _ = true
    rw [Gates.isReleased_grow]
    exact hrel
  · exact hrel

/-- A gate takes the place of another exactly when `resume` leaves instructions. It is the next one. -/
theorem gate_dispatch (h : d.session.cycle.Sound d.canRun) (c : Command) :
    (dispatch d c).1.session.gate =
      if c = .debug .resume ∧ (dispatch d c).1.canRun = true then d.session.gate + 1
      else d.session.gate := by
  by_cases hc : c = .debug .resume
  · subst hc
    have hcycle := congrArg Cycle.gate (cycle_dispatch d (.debug .resume))
    by_cases hi : (dispatch d (.debug .resume)).1.canRun = true
    · rw [if_pos ⟨rfl, hi⟩]
      simp only [Cycle.afterCommand, hi, if_true] at hcycle
      exact hcycle.trans ((Gates.next_release _ _).trans h.newest.symm)
    · rw [if_neg fun hand => hi hand.2]
      simp only [Cycle.afterCommand, hi] at hcycle
      exact hcycle
  · rw [if_neg fun hand => hc hand.1]
    exact (gates_dispatch hc).2

theorem gate_le_dispatchAll (h : d.session.cycle.Sound d.canRun) (cs : List Command) :
    d.session.gate ≤ (dispatchAll d cs).session.gate := by
  induction cs generalizing d with
  | nil => exact Nat.le_refl _
  | cons c cs ih =>
    have hstep : d.session.gate ≤ (dispatch d c).1.session.gate := by
      rw [gate_dispatch h]
      split
      · exact Nat.le_succ _
      · exact Nat.le_refl _
    exact Nat.le_trans hstep (ih (sound_dispatch h c))

end Console

open Console in
/-- How the gates of a session stand after the commands `cs` of the console, and what one command more
does to them. While instructions are left the present gate is not released and the session is paused;
it is never found running. A gate that was the present one and is not any more is released, and stays
so. A gate is released by `resume` only, which releases the one it finds. And another gate takes its
place exactly when `resume` leaves instructions; that gate never was the present one before. -/
structure Debugger.LeavesNobodyWaiting (d : Debugger) (cs : List Console.Command) : Prop where
  waiting : (dispatchAll d cs).canRun = true →
    (dispatchAll d cs).session.isReleased = false ∧ (dispatchAll d cs).session.phase = .paused
  between : (dispatchAll d cs).session.phase ≠ .running
  behind : ∀ before, before <+: cs →
    (dispatchAll d before).session.gate ≠ (dispatchAll d cs).session.gate →
    (dispatchAll d cs).session.gates.isReleased (dispatchAll d before).session.gate = true
  stays : ∀ before, before <+: cs → ∀ i,
    (dispatchAll d before).session.gates.isReleased i = true →
    (dispatchAll d cs).session.gates.isReleased i = true
  opens : ∀ c i, (dispatchAll d cs).session.gates.isReleased i = false →
    (dispatchAll d (cs ++ [c])).session.gates.isReleased i = true → c = .debug .resume
  resumed : (dispatchAll d (cs ++ [.debug .resume])).session.gates.isReleased
    (dispatchAll d cs).session.gate = true
  replaced : ∀ c,
    (dispatchAll d (cs ++ [c])).session.gate ≠ (dispatchAll d cs).session.gate ↔
      c = .debug .resume ∧ (dispatchAll d (cs ++ [c])).canRun = true
  fresh : ∀ c, (dispatchAll d (cs ++ [c])).session.gate ≠ (dispatchAll d cs).session.gate →
    ∀ before, before <+: cs →
      (dispatchAll d before).session.gate ≠ (dispatchAll d (cs ++ [c])).session.gate

open Console in
/-- **Nobody who waits at a gate is left behind**, whatever commands a session at the console is given,
whether the program stops, ends or raises a fault. -/
theorem no_waiter_stranded (m : Machine) (options : ListOptions) (cs : List Console.Command) :
    (Debugger.start m options).LeavesNobodyWaiting cs := by
  have hsound (as : List Console.Command) := sound_dispatchAll (.start m options) as
  have hgate (before : List Console.Command) (hb : before <+: cs) :
      (dispatchAll (.start m options) before).session.gate ≤
        (dispatchAll (.start m options) cs).session.gate := by
    obtain ⟨more, rfl⟩ := hb
    rw [dispatchAll_append]
    exact gate_le_dispatchAll (hsound before) more
  refine ⟨(hsound cs).waiting, (hsound cs).between, fun before hb hne => ?_, ?_, ?_, ?_, ?_, ?_⟩
  · exact (hsound cs).behind _ (Nat.lt_of_le_of_ne (hgate before hb) hne)
  · rintro before ⟨more, rfl⟩ i hi
    rw [dispatchAll_append]
    exact isReleased_dispatchAll hi more
  · intro c i hclosed hopen
    by_contra hc
    rw [dispatchAll_concat, (gates_dispatch hc).1, hclosed] at hopen
    cases hopen
  · rw [dispatchAll_concat]
    exact isReleased_dispatch_resume (hsound cs)
  · intro c
    rw [dispatchAll_concat, gate_dispatch (hsound cs)]
    split
    · rename_i hnew
      exact iff_of_true (Nat.succ_ne_self _) hnew
    · rename_i hold
      exact iff_of_false (fun hne => hne rfl) hold
  · intro c hne before hb
    have hle := hgate before hb
    rw [dispatchAll_concat, gate_dispatch (hsound cs)] at hne ⊢
    split at hne
    · rename_i hnew
      rw [if_pos hnew]
      exact Nat.ne_of_lt (Nat.lt_succ_of_le hle)
    · exact absurd rfl hne

/-! ### The state and the gate -/

/-- `a` was done, and since then nothing that `ends` tells. -/
def Action.Since (a : Action) (ends : Action → Prop) (actions : List Action) : Prop :=
  ∃ before after, actions = before ++ a :: after ∧ ∀ b ∈ after, ¬ ends b

namespace Action

variable {a : Action} {ends : Action → Prop}

theorem not_since_nil : ¬ a.Since ends [] := by
  rintro ⟨before, after, h, -⟩
  exact absurd h.symm (List.append_ne_nil_of_right_ne_nil before (List.cons_ne_nil a after))

theorem since_concat {b : Action} {actions : List Action} :
    a.Since ends (actions ++ [b]) ↔ b = a ∨ ¬ ends b ∧ a.Since ends actions := by
  constructor
  · rintro ⟨before, after, h, hafter⟩
    rcases List.eq_nil_or_concat after with rfl | ⟨after, last, rfl⟩
    · exact Or.inl (List.append_inj_right' h rfl |> List.singleton_inj.1)
    · rw [List.concat_eq_append, ← List.cons_append, ← List.append_assoc] at h
      obtain ⟨rfl, hlast⟩ := List.append_inj' h rfl
      obtain rfl := List.singleton_inj.1 hlast
      rw [List.concat_eq_append, List.forall_mem_append] at hafter
      exact Or.inr ⟨hafter.2 b (List.mem_singleton_self b), before, after, rfl, hafter.1⟩
  · rintro (rfl | ⟨hb, before, after, rfl, hafter⟩)
    · exact ⟨actions, [], rfl, nofun⟩
    · refine ⟨before, after ++ [b], by simp, ?_⟩
      exact List.forall_mem_append.2 ⟨hafter, List.forall_mem_singleton.2 hb⟩

/-- Three actions matter to the cycle of a session. -/
theorem after_cases (a : Action) : a = .command .next ∨ a = .command .resume ∨ a = .reactivate ∨
    a ≠ .command .next ∧ a ≠ .command .resume ∧ a ≠ .reactivate ∧ ∀ c : Cycle, c.after a = c := by
  cases a with
  | command c => cases c <;> simp [Cycle.after]
  | setBreakpoint | clearBreakpoint | reactivate | runToPause => simp [Cycle.after]

/-- After a `resume`, the last of the three is a `next` or there is none. -/
theorem since_resume_iff (actions : List Action) :
    (Since (.command .resume) (fun a => a = .reactivate ∨ a = .command .next) actions ↔
        Since (.command .resume) (· = .reactivate) actions) ↔
      ¬ (Since (.command .resume) (· = .reactivate) actions ∧
        Since (.command .next) (fun a => a = .reactivate ∨ a = .command .resume) actions) := by
  induction actions using List.reverseRecOn with
  | nil => simp [not_since_nil]
  | append_singleton actions a ih =>
    simp only [since_concat]
    obtain rfl | rfl | rfl | ⟨hnext, hresume, hreactivate, -⟩ := a.after_cases
    · simp
    · simp
    · simp
    · simpa [hnext, hresume, hreactivate] using ih

end Action

/-- The state of a session is that of its last step, and the gate that of its last `resume`. The state
is `released` from a `resume` on until the next `next` or `reactivate`; the gate is released from a
`resume` on until `reactivate`. So the two go together unless a `next` was given behind a released gate
after the last `resume`. -/
structure Debugger.KeepsPhase (d : Debugger) (actions : List Action) : Prop where
  between : (d.actAll actions).1.session.phase ≠ .running
  released : (d.actAll actions).1.session.isReleased = true ↔
    Action.Since (.command .resume) (· = .reactivate) actions
  phase : (d.actAll actions).1.session.phase = .released ↔
    Action.Since (.command .resume) (fun a => a = .reactivate ∨ a = .command .next) actions
  mirrors : ((d.actAll actions).1.session.phase = .released ↔
      (d.actAll actions).1.session.isReleased = true) ↔
    ¬ (Action.Since (.command .resume) (· = .reactivate) actions ∧
      Action.Since (.command .next) (fun a => a = .reactivate ∨ a = .command .resume) actions)

/-- The cycle that actions lead to from the start. -/
def Cycle.afterAll (actions : List Action) : Cycle := actions.foldl Cycle.after Session.start.cycle

theorem Debugger.cycle_actAll (d : Debugger) (actions : List Action) :
    (d.actAll actions).1.session.cycle = actions.foldl Cycle.after d.session.cycle := by
  induction actions generalizing d with
  | nil => rfl
  | cons a actions ih =>
    rw [List.foldl_cons, ← d.cycle_act a]
    exact ih _

namespace Cycle

theorem afterAll_concat (actions : List Action) (a : Action) :
    afterAll (actions ++ [a]) = (afterAll actions).after a := by
  rw [afterAll, List.foldl_append]
  rfl

theorem gate_lt_next (actions : List Action) :
    (afterAll actions).gate < (afterAll actions).gates.next := by
  induction actions using List.reverseRecOn with
  | nil => exact Nat.one_pos
  | append_singleton actions a ih =>
    rw [afterAll_concat]
    obtain rfl | rfl | rfl | ⟨-, -, -, hsame⟩ := a.after_cases
    · exact ih
    · exact (Gates.next_release _ _).symm ▸ ih
    · exact (Gates.next_grow _).symm ▸ Nat.lt_succ_self _
    · rw [hsame]
      exact ih

theorem isReleased_renew (c : Cycle) : c.renew.isReleased = false := by
  show c.gates.grow.isReleased c.gates.next = false
  rw [Gates.isReleased_grow]
  exact Gates.isReleased_of_next_le (Nat.le_refl _)

/-- The gate is released exactly if there was a `resume` and no `reactivate` since. -/
theorem isReleased_afterAll (actions : List Action) :
    (afterAll actions).isReleased = true ↔
      Action.Since (.command .resume) (· = .reactivate) actions := by
  induction actions using List.reverseRecOn with
  | nil => exact iff_of_false nofun Action.not_since_nil
  | append_singleton actions a ih =>
    rw [afterAll_concat, Action.since_concat, ← ih]
    obtain rfl | rfl | rfl | ⟨-, hresume, hreactivate, hsame⟩ := a.after_cases
    · simp [after, pause, isReleased]
    · have hopen : (afterAll actions).release.isReleased = true :=
        Gates.isReleased_release_self (gate_lt_next actions)
      simp [after, hopen]
    · simp [after, isReleased_renew]
    · simp [hsame, hresume, hreactivate]

/-- The state is `released` exactly if there was a `resume` and neither of the others since. -/
theorem phase_afterAll (actions : List Action) :
    (afterAll actions).phase = .released ↔
      Action.Since (.command .resume) (fun a => a = .reactivate ∨ a = .command .next) actions := by
  induction actions using List.reverseRecOn with
  | nil => exact iff_of_false nofun Action.not_since_nil
  | append_singleton actions a ih =>
    rw [afterAll_concat, Action.since_concat, ← ih]
    obtain rfl | rfl | rfl | ⟨hnext, hresume, hreactivate, hsame⟩ := a.after_cases
    · simp [after, pause]
    · simp [after, release]
    · simp [after, renew]
    · simp [hsame, hnext, hresume, hreactivate]

theorem phase_ne_running (actions : List Action) : (afterAll actions).phase ≠ .running := by
  induction actions using List.reverseRecOn with
  | nil => exact nofun
  | append_singleton actions a ih =>
    rw [afterAll_concat]
    obtain rfl | rfl | rfl | ⟨-, -, -, hsame⟩ := a.after_cases
    · exact nofun
    · exact nofun
    · exact nofun
    · rw [hsame]
      exact ih

end Cycle

/-- **The state follows the last step, the gate follows `resume`**, whatever is done to a debugger. -/
theorem phase_follows_last_step (m : Machine) (options : ListOptions) (actions : List Action) :
    (Debugger.start m options).KeepsPhase actions := by
  have hcycle : ((Debugger.start m options).actAll actions).1.session.cycle =
      Cycle.afterAll actions := Debugger.cycle_actAll _ actions
  have hphase : ((Debugger.start m options).actAll actions).1.session.phase =
      (Cycle.afterAll actions).phase := congrArg Cycle.phase hcycle
  have hopen : ((Debugger.start m options).actAll actions).1.session.isReleased =
      (Cycle.afterAll actions).isReleased := congrArg Cycle.isReleased hcycle
  refine ⟨?_, ?_, ?_, ?_⟩
  · rw [hphase]
    exact Cycle.phase_ne_running actions
  · rw [hopen]
    exact Cycle.isReleased_afterAll actions
  · rw [hphase]
    exact Cycle.phase_afterAll actions
  · rw [hphase, hopen, Cycle.isReleased_afterAll, Cycle.phase_afterAll]
    exact Action.since_resume_iff actions

set_option maxRecDepth 100000 in
/-- A `resume` to a marker and then a `next`: the session is paused behind a gate that is released,
with code left to run. -/
theorem paused_behind_released_gate :
    let source := Source.ofText "main.js" "this;\ndebugger;\nthis;\nthis;\n"
    ∃ p, Program.ofSource source .script = .ok p ∧
      let d := ((Debugger.start (.start p) .default).actAll
        [.command .resume, .command .next]).1
      d.canRun = true ∧ ¬ (d.session.phase = .released ↔ d.session.isReleased = true) := by
  intro source
  have hapart (s : Session)
      (h : s.cycle = Cycle.afterAll [.command .resume, .command .next]) :
      ¬ (s.phase = .released ↔ s.isReleased = true) := by
    have hphase : s.phase = .paused := congrArg Cycle.phase h
    have hopen : s.isReleased = true := congrArg Cycle.isReleased h
    rw [hphase, hopen]
    decide
  exact ⟨_, by cbv, by cbv, hapart _ (Debugger.cycle_actAll _ _)⟩

end ScriptDebug
