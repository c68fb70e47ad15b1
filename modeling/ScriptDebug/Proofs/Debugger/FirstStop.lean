/-
# Where a session begins

A session that does not stop on entry is to begin at the first stop point of its
program: the first index at which a marker stands, a line with a breakpoint
begins, or the program ends. The first positioning goes there from the start
(`Debugger.goesTo_firstStop`). But it is left out for a program that opens with a
marker, and that may stand inside blocks: then the session begins before the
blocks, which is the first stop point only if the line they open on has a
breakpoint (`session_begins_at_first_stop`, `opening_block_not_entered`).

Key definitions: `Program.stopPoints`, `Program.OpensWith`, `CommandLine.Positioned`.
Key theorems: `Debugger.stopsAt_iff`, `CommandLine.mem_points_prepare`,
`CommandLine.position_of_steps`, `session_begins_at_first_stop`.
-/
import ScriptDebug.CommandLine
import ScriptDebug.Proofs.Debugger.StopPoints
import ScriptDebug.Proofs.Lists
import ScriptDebug.Proofs.Program.Lines

namespace ScriptDebug

/-! ### The stop points of a program -/

namespace Program

/-- Where a run from the start may stop: at the end, at a marker, and where a line that has a
breakpoint begins. -/
def stopPoints (p : Program) (points : List Breakpoint) : Set Nat :=
  {i | i = p.code.size ∨ p.code[i]? = some .pause ∨
    (∀ j < i, p.lineAt j ≠ p.lineAt i) ∧ ⟨p.source.name, p.lineAt i⟩ ∈ points}

/-- The program opens with a marker that stands inside `k` blocks. -/
structure OpensWith (p : Program) (k : Nat) : Prop where
  marker : p.code[k]? = some .pause
  blocks : ∀ i < k, p.code[i]? = some .enterBlock

variable {p : Program}

theorem exists_isLeast_stopPoints (p : Program) (points : List Breakpoint) :
    ∃ q, IsLeast (p.stopPoints points) q := by
  have hend : (p.stopPoints points).Nonempty := ⟨p.code.size, Or.inl rfl⟩
  exact ⟨sInf _, isLeast_csInf hend⟩

theorem isLeast_zero {points : List Breakpoint} (h : 0 ∈ p.stopPoints points) :
    IsLeast (p.stopPoints points) 0 := ⟨h, fun i _ => Nat.zero_le i⟩

/-- The first stop point is one before which there is none. -/
theorem isLeast_stopPoints_iff {points : List Breakpoint} {q : Nat} :
    IsLeast (p.stopPoints points) q ↔
      q ∈ p.stopPoints points ∧ ∀ i < q, i ∉ p.stopPoints points := by
  refine and_congr_right fun _ => ⟨fun hle i hi hmem => ?_, fun hnone i hi => ?_⟩
  · exact Nat.not_le_of_lt hi (hle hmem)
  · exact Nat.le_of_not_lt fun hlt => hnone i hlt hi

/-- Lines do not go back up, so a line begins where the index before is on another one. -/
theorem begins_line_iff (h : p.Marked) {i : Nat} (hi : 0 < i) :
    (∀ j < i, p.lineAt j ≠ p.lineAt i) ↔ p.lineAt i ≠ p.lineAt (i - 1) := by
  constructor
  · exact fun hfirst => (hfirst (i - 1) (by omega)).symm
  · intro hne j hj heq
    have hlow := lineAt_mono h (i := j) (j := i - 1) (by omega)
    have hhigh := lineAt_mono h (i := i - 1) (j := i) (by omega)
    omega

/-- A program that opens with blocks can stop at its start only because of a breakpoint. -/
theorem OpensWith.zero_mem_iff {k : Nat} (h : p.OpensWith k) (hk : 0 < k)
    {points : List Breakpoint} :
    0 ∈ p.stopPoints points ↔ ⟨p.source.name, p.lineAt 0⟩ ∈ points := by
  have henter : p.code[0]? = some .enterBlock := h.blocks 0 hk
  have hsize : 0 < p.code.size := (Array.getElem?_eq_some_iff.1 henter).1
  constructor
  · rintro (hend | hmarker | ⟨-, hbreak⟩)
    · omega
    · rw [henter] at hmarker
      cases hmarker
    · exact hbreak
  · refine fun hbreak => Or.inr (Or.inr ⟨fun j hj => ?_, hbreak⟩)
    exact absurd hj (Nat.not_lt_zero j)

end Program

/-! ### The first positioning -/

namespace Debugger

variable {d : Debugger}

/-- After the start the loop stops exactly at the stop points. -/
theorem stopsAt_iff (hm : d.machine.frame.program.Marked) {i : Nat} (hi : 0 < i) :
    d.StopsAt i ↔ i ∈ d.machine.frame.program.stopPoints d.breakpoints.points := by
  rw [Program.stopPoints, Set.mem_ofPred_eq, Program.begins_line_iff hm hi]
  rfl

/-- At the start a debugger is at a stop exactly if that is a stop point. -/
theorem parked_iff_of_start (hpc : d.machine.frame.pc = 0) :
    d.Parked ↔ 0 ∈ d.machine.frame.program.stopPoints d.breakpoints.points := by
  have hend : d.canRun = false ↔ 0 = d.machine.frame.program.code.size := by
    rw [← Bool.not_eq_true, canRun_iff, hpc]
    omega
  have hline : d.line = d.machine.frame.program.lineAt 0 := by rw [line, Machine.line, hpc]
  have hfirst : ∀ j < 0, d.machine.frame.program.lineAt j ≠ d.machine.frame.program.lineAt 0 :=
    fun j hj => absurd hj (Nat.not_lt_zero j)
  rw [Parked, hend, hline, hpc, Program.stopPoints, Set.mem_ofPred_eq, and_iff_right hfirst]
  rfl

/-- From the start the first positioning goes to the first stop point. -/
theorem goesTo_firstStop (hm : d.machine.frame.program.Marked) (hpc : d.machine.frame.pc = 0)
    {q : Nat} (hq : IsLeast (d.machine.frame.program.stopPoints d.breakpoints.points) q) :
    d.machine.GoesTo q d.runToPause.1.machine (errorOf d.runToPause.2) := by
  by_cases h : d.Parked
  · obtain ⟨hstays, hok⟩ := runToPause_of_parked h
    obtain rfl : q = 0 := hq.unique (Program.isLeast_zero ((parked_iff_of_start hpc).1 h))
    have hhere := Machine.GoesTo.here d.machine
    rw [hpc] at hhere
    rwa [hstays, hok]
  · refine goesTo_runToPause h ⟨⟨?_, ?_⟩, fun i hi => ?_⟩
    · rw [hpc]
      refine Nat.pos_of_ne_zero fun hzero => h ((parked_iff_of_start hpc).2 ?_)
      exact hzero ▸ hq.1
    · refine (stopsAt_iff hm (Nat.pos_of_ne_zero fun hzero => ?_)).2 hq.1
      exact h ((parked_iff_of_start hpc).2 (hzero ▸ hq.1))
    · exact hq.2 ((stopsAt_iff hm (Nat.lt_of_le_of_lt (Nat.zero_le _) hi.1)).1 hi.2)

/-- At the start, what is told of the opening is whether the program opens with a marker. -/
theorem isBreakOnStart_iff (hpc : d.machine.frame.pc = 0) :
    d.isBreakOnStart = true ↔ ∃ k, d.machine.frame.program.OpensWith k := by
  unfold isBreakOnStart
  dsimp only
  constructor
  · intro h
    split at h
    · rename_i first hfirst
      obtain ⟨hlt, -, hblocks⟩ := Array.findIdx?_eq_some_iff_getElem.1 hfirst
      simp only [Bool.and_eq_true, decide_eq_true_eq] at h
      refine ⟨first, h.1, fun i hi => ?_⟩
      have hi' := hblocks i hi
      rw [decide_eq_true_eq, ne_eq, not_not] at hi'
      rw [Array.getElem?_eq_getElem (Nat.lt_trans hi hlt), hi']
    · cases h
  · rintro ⟨k, hmarker, hblocks⟩
    obtain ⟨hlt, hk⟩ := Array.getElem?_eq_some_iff.1 hmarker
    have hfind : d.machine.frame.program.code.findIdx? (· ≠ .enterBlock) = some k := by
      refine Array.findIdx?_eq_some_iff_getElem.2 ⟨hlt, by simp [hk], fun i hi => ?_⟩
      have henter := (Array.getElem?_eq_some_iff.1 (hblocks i hi)).2
      simp [henter]
    rw [hfind]
    simp [hmarker, hpc]

end Debugger

/-! ### From the arguments to the session -/

namespace CommandLine

theorem setAtStart_spec (d : Debugger) (b : Breakpoint) :
    (setAtStart d b).machine = d.machine ∧
      (setAtStart d b).breakpoints.points =
        if b ∈ d.breakpoints.points then d.breakpoints.points else d.breakpoints.points ++ [b] := by
  unfold setAtStart Debugger.setBreakpoint Breakpoints.set Breakpoints.set? Breakpoints.contains
  by_cases hb : b ∈ d.breakpoints.points
  · have hcontains : d.breakpoints.points.contains b = true := List.contains_iff_mem.2 hb
    simp only [hcontains, if_true, if_pos hb]
    exact ⟨rfl, rfl⟩
  · have hcontains : d.breakpoints.points.contains b = false := by simpa using hb
    simp only [hcontains, Bool.false_eq_true, if_false, if_neg hb]
    exact ⟨rfl, rfl⟩

/-- To set breakpoints one after the other drops the later ones of those that are equal. -/
theorem foldl_setAtStart (points : List Breakpoint) {d : Debugger} (hd : d.breakpoints.points = []) :
    (points.foldl setAtStart d).machine = d.machine ∧
      (points.foldl setAtStart d).breakpoints.points = points.eraseDups := by
  induction points using List.reverseRecOn with
  | nil => exact ⟨rfl, hd⟩
  | append_singleton points b ih =>
    obtain ⟨hmachine, hpoints⟩ := setAtStart_spec (points.foldl setAtStart d) b
    rw [List.foldl_append, List.foldl_cons, List.foldl_nil, hmachine, hpoints, ih.2,
      eraseDups_concat]
    exact ⟨ih.1, if_congr List.mem_eraseDups rfl rfl⟩

variable (settings : Settings) (showsColor : Bool) (p : Program)

theorem machine_prepare : (prepare settings showsColor p).machine = .start p :=
  (foldl_setAtStart _ rfl).1

/-- **The registered breakpoints are those of the settings**, each where it comes first. -/
theorem points_prepare :
    (prepare settings showsColor p).breakpoints.points = settings.breakpoints.eraseDups :=
  (foldl_setAtStart _ rfl).2

theorem mem_points_prepare (b : Breakpoint) :
    b ∈ (prepare settings showsColor p).breakpoints.points ↔ b ∈ settings.breakpoints := by
  rw [points_prepare]
  exact List.mem_eraseDups

/-- A session at the first prompt, of a program whose first stop point is `q` and whose machine gets
there as `m`. It has the breakpoints that were asked for. It is at the first stop point, unless the
program opens with a marker inside blocks: then it is before the blocks, where the first stop point is
if there is a breakpoint on the line. -/
structure Positioned (points : List Breakpoint) (q : Nat) (m : Machine) (d : Debugger) : Prop where
  registered : ∀ b, b ∈ d.breakpoints.points ↔ b ∈ points
  arrived : (∀ k, 0 < k → ¬ p.OpensWith k) → d.machine = m ∧ m.frame.pc = q
  blocked : ∀ k, 0 < k → p.OpensWith k → d.machine = .start p
  atFirst : d.machine.frame.pc = q ↔
    (∀ k, 0 < k → ¬ p.OpensWith k) ∨ ⟨p.source.name, p.lineAt 0⟩ ∈ points

variable {settings showsColor p}

/-- The first positioning of a session whose program does not open with a marker. -/
theorem position_eq_ok {d : Debugger} (hentry : settings.stopOnEntry = false)
    (hstart : d.isBreakOnStart = false) (hok : d.runToPause.2 = .ok ()) :
    position settings d = .ok d.runToPause.1 := by
  unfold position
  rw [hentry, hstart]
  rcases hrun : d.runToPause with ⟨d', r⟩
  rw [hrun] at hok
  obtain rfl : r = .ok () := hok
  rfl

/-- The session of a program that opens with a marker is not positioned. -/
theorem position_of_isBreakOnStart {d : Debugger} (hstart : d.isBreakOnStart = true) :
    position settings d = .ok d := by
  unfold position
  rw [hstart, Bool.or_true]
  rfl

theorem stopPoints_prepare :
    p.stopPoints (prepare settings showsColor p).breakpoints.points =
      p.stopPoints settings.breakpoints := by
  simp only [Program.stopPoints, mem_points_prepare]

/-- It is enough to know where the machine is. A program that opens with blocks can have its first stop
point before them only because of a breakpoint. -/
theorem positioned_of {points : List Breakpoint} {q : Nat} {m : Machine} {d : Debugger}
    (hq : IsLeast (p.stopPoints points) q) (hpoints : ∀ b, b ∈ d.breakpoints.points ↔ b ∈ points)
    (harrived : (∀ k, 0 < k → ¬ p.OpensWith k) → d.machine = m ∧ m.frame.pc = q)
    (hblocked : ∀ k, 0 < k → p.OpensWith k → d.machine = .start p) :
    Positioned p points q m d := by
  refine ⟨hpoints, harrived, hblocked, ?_⟩
  by_cases hplain : ∀ k, 0 < k → ¬ p.OpensWith k
  · obtain ⟨rfl, hpc⟩ := harrived hplain
    exact iff_of_true hpc (Or.inl hplain)
  · obtain ⟨k, hk, hopen⟩ : ∃ k, 0 < k ∧ p.OpensWith k := by simpa using hplain
    have hpc : d.machine.frame.pc = 0 := by
      rw [hblocked k hk hopen]
      rfl
    rw [hpc, or_iff_right hplain, ← hopen.zero_mem_iff hk]
    exact ⟨fun hzero => hzero ▸ hq.1, fun hzero => (Program.isLeast_zero hzero).unique hq⟩

/-- **Positioning ends at the first stop point**, or before the blocks that hold a marker. -/
theorem position_of_steps {q : Nat} {m : Machine} (hm : p.Marked)
    (hentry : settings.stopOnEntry = false) (hq : IsLeast (p.stopPoints settings.breakpoints) q)
    (hrun : (Machine.start p).steps q = .done m) :
    ∃ d, position settings (prepare settings showsColor p) = .ok d ∧
      Positioned p settings.breakpoints q m d := by
  have hstart : (prepare settings showsColor p).machine = .start p :=
    machine_prepare settings showsColor p
  have hprogram : (prepare settings showsColor p).machine.frame.program = p := by rw [hstart]; rfl
  have hzero : (prepare settings showsColor p).machine.frame.pc = 0 := by rw [hstart]; rfl
  have hpc : m.frame.pc = q := (Machine.keeps_steps hrun).2.trans (Nat.zero_add q)
  have hopens := Debugger.isBreakOnStart_iff hzero
  rw [hprogram] at hopens
  by_cases hopen : (prepare settings showsColor p).isBreakOnStart = true
  · refine ⟨_, position_of_isBreakOnStart hopen, positioned_of hq (mem_points_prepare _ _ _)
      (fun hplain => ?_) fun _ _ _ => hstart⟩
    -- the marker is in no block, so the program stops where it starts
    obtain ⟨k, hk⟩ := hopens.1 hopen
    obtain rfl : k = 0 := Nat.eq_zero_of_not_pos fun hpos => hplain k hpos hk
    obtain rfl : q = 0 := hq.unique (Program.isLeast_zero (Or.inr (Or.inl hk.marker)))
    cases hrun
    exact ⟨hstart, hpc⟩
  · have hnone (k : Nat) : ¬ p.OpensWith k := fun hk => hopen (hopens.2 ⟨k, hk⟩)
    have hgo : (Machine.start p).GoesTo q _ _ := hstart ▸ Debugger.goesTo_firstStop
      (hprogram.symm ▸ hm) hzero (by rw [hprogram, stopPoints_prepare]; exact hq)
    obtain ⟨harrives, hnoError⟩ := hgo.unique (.arrives hrun hpc)
    have hok : (prepare settings showsColor p).runToPause.2 = .ok () := by
      cases hr : (prepare settings showsColor p).runToPause.2 with
      | ok => rfl
      | error e =>
        rw [hr] at hnoError
        cases hnoError
    refine ⟨_, position_eq_ok hentry (Bool.eq_false_iff.2 hopen) hok,
      positioned_of hq (fun b => ?_) (fun _ => ⟨harrives, hpc⟩) fun k _ hk => absurd hk (hnone k)⟩
    rw [Debugger.breakpoints_runToPause]
    exact mem_points_prepare _ _ _ b

variable {files : String → Option String} {o : Options}

/-- The settings before the options override them: those of a file that is named, or the defaults. -/
def baseSettings (files : String → Option String) (o : Options) : Except StartError Settings :=
  match o.config with
  | none => .ok .default
  | some path => settingsOf path (files path)

/-- The breakpoints are those of the settings file and those of the options behind them. -/
def Configured (files : String → Option String) (o : Options) (settings : Settings) : Prop :=
  ∃ base breaks, baseSettings files o = .ok base ∧ readBreaks o.breaks = .ok breaks ∧
    settings.breakpoints = base.breakpoints ++ breaks ∧
    settings.stopOnEntry = (base.stopOnEntry && !o.noStopOnEntry)

theorem settingsFor_eq (files : String → Option String) (o : Options) :
    settingsFor (m := Id) files o = (do
      let base ← baseSettings files o
      let s ← override o base
      checkLevel s
      Except.ok s : Except StartError Settings) := by
  unfold settingsFor baseSettings
  cases o.config <;> rfl

theorem configured_of_settingsFor (h : settingsFor (m := Id) files o = Except.ok settings) :
    Configured files o settings := by
  rw [settingsFor_eq] at h
  obtain ⟨base, hbase, h⟩ := Tree.bind_eq_ok.1 h
  obtain ⟨s, hs, h⟩ := Tree.bind_eq_ok.1 h
  obtain ⟨-, -, h⟩ := Tree.bind_eq_ok.1 h
  cases h
  unfold override at hs
  obtain ⟨breaks, hbreaks, hs⟩ := Tree.bind_eq_ok.1 hs
  cases hs
  exact ⟨base, breaks, hbase, hbreaks, rfl, rfl⟩

/-- A session is started by positioning a prepared one. -/
theorem start_eq_position {args : List String} {text : String} (hargs : parse? args = some o)
    (hsettings : settingsFor (m := Id) files o = Except.ok settings)
    (htext : files o.script = some text)
    (hp : Program.ofSource (Source.ofText o.script text) .script = .ok p) :
    start (m := Id) files showsColor args =
      (position settings (prepare settings showsColor p)).mapError .program := by
  have hopen : start (m := Id) files showsColor args =
      open? settings showsColor o.script text := by
    simp only [start, hargs]
    show (match settingsFor (m := Id) files o with
      | .error e => _
      | .ok settings => _) = _
    rw [hsettings]
    show (match files o.script with
      | none => _
      | some text => _) = _
    rw [htext]
    rfl
  rw [hopen, open?, hp]
  rfl

end CommandLine

/-- **A session that does not stop on entry begins at the first stop point**, whatever the script and
the breakpoints are, if its program raises no fault before, except that it stays before blocks in which
the program opens with a marker. -/
theorem session_begins_at_first_stop {files : String → Option String} {args : List String}
    {o : CommandLine.Options} {settings : Settings} {text : String} {p : Program}
    (hargs : CommandLine.parse? args = some o)
    (hsettings : CommandLine.settingsFor (m := Id) files o = Except.ok settings)
    (hentry : settings.stopOnEntry = false) (htext : files o.script = some text)
    (hp : Program.ofSource (Source.ofText o.script text) .script = .ok p) (showsColor : Bool) :
    CommandLine.Configured files o settings ∧
      ∃ q, IsLeast (p.stopPoints settings.breakpoints) q ∧
        ∀ m, (Machine.start p).steps q = .done m →
          ∃ d, CommandLine.start (m := Id) files showsColor args = Except.ok d ∧
            CommandLine.Positioned p settings.breakpoints q m d := by
  refine ⟨CommandLine.configured_of_settingsFor hsettings, ?_⟩
  obtain ⟨q, hq⟩ := p.exists_isLeast_stopPoints settings.breakpoints
  refine ⟨q, hq, fun m hrun => ?_⟩
  obtain ⟨d, hd, hpositioned⟩ :=
    CommandLine.position_of_steps (Program.marked_ofSource hp) hentry hq hrun
  refine ⟨d, ?_, hpositioned⟩
  rw [CommandLine.start_eq_position hargs hsettings htext hp, hd]
  rfl

set_option maxRecDepth 100000 in
/-- A session with a breakpoint on the second line begins there. -/
theorem second_line_begins :
    let files := fun path => if path = "m.js" then some "this;\nthis;\n" else none
    let args := ["m.js", "--no-stop-on-entry", "--break", "m.js:2"]
    ∃ p m d, (Machine.start p).steps 2 = .done m ∧
      CommandLine.start (m := Id) files false args = Except.ok d ∧
      CommandLine.Positioned p [⟨"m.js", 2⟩] 2 m d := by
  intro files args
  let o : CommandLine.Options := ⟨"m.js", none, ["m.js:2"], true, false, none⟩
  have hargs : CommandLine.parse? args = some o := by cbv
  obtain ⟨settings, hsettings, hpoints, hentry⟩ : ∃ settings,
      CommandLine.settingsFor (m := Id) files o = Except.ok settings ∧
      settings.breakpoints = [⟨"m.js", 2⟩] ∧ settings.stopOnEntry = false :=
    ⟨_, by cbv, by cbv, by cbv⟩
  obtain ⟨p, m, hp, hrun, hcode, hname, h0, h1, h2⟩ : ∃ p m,
      Program.ofSource (Source.ofText "m.js" "this;\nthis;\n") .script = .ok p ∧
      (Machine.start p).steps 2 = .done m ∧
      p.code = #[.loadGlobalThis, .saveResult, .loadGlobalThis, .saveResult, .halt] ∧
      p.source.name = "m.js" ∧ p.lineAt 0 = 1 ∧ p.lineAt 1 = 1 ∧ p.lineAt 2 = 2 :=
    ⟨_, _, by cbv, by cbv, by cbv, by cbv, by cbv, by cbv, by cbv⟩
  have hleast : IsLeast (p.stopPoints [⟨"m.js", 2⟩]) 2 := by
    refine Program.isLeast_stopPoints_iff.2 ⟨Or.inr (Or.inr ⟨fun j hj => ?_, ?_⟩), fun i hi => ?_⟩
    · interval_cases j <;> omega
    · simp [h2, hname]
    · interval_cases i <;> simp [Program.stopPoints, hcode, hname, h0, h1]
  obtain ⟨-, q, hq, hall⟩ := session_begins_at_first_stop hargs hsettings hentry rfl hp false
  obtain rfl : q = 2 := (hpoints ▸ hq).unique hleast
  obtain ⟨d, hd, hpositioned⟩ := hall m hrun
  exact ⟨p, m, d, hrun, hd, hpoints ▸ hpositioned⟩

set_option maxRecDepth 100000 in
/-- A marker in a block at the start is the first stop point, but the session begins before the block. -/
theorem opening_block_not_entered :
    let text := "\x7b\n  debugger;\n\x7d\n"
    let files := fun path => if path = "m.js" then some text else none
    ∃ p m d, Program.ofSource (Source.ofText "m.js" text) .script = .ok p ∧
      IsLeast (p.stopPoints []) 1 ∧ (Machine.start p).steps 1 = .done m ∧
      CommandLine.start (m := Id) files false ["m.js", "--no-stop-on-entry"] = Except.ok d ∧
      d.breakpoints.points = [] ∧ d.machine.frame.pc = 0 := by
  intro text files
  obtain ⟨p, m, d, hp, hcode, hrun, hd, hpoints, hpc⟩ : ∃ p m d,
      Program.ofSource (Source.ofText "m.js" text) .script = .ok p ∧
      p.code = #[.enterBlock, .pause, .leaveBlock, .halt] ∧ (Machine.start p).steps 1 = .done m ∧
      CommandLine.start (m := Id) files false ["m.js", "--no-stop-on-entry"] = Except.ok d ∧
      d.breakpoints.points = [] ∧ d.machine.frame.pc = 0 :=
    ⟨_, _, _, by cbv, by cbv, by cbv, by cbv, by cbv, by cbv⟩
  refine ⟨p, m, d, hp, ?_, hrun, hd, hpoints, hpc⟩
  refine Program.isLeast_stopPoints_iff.2 ⟨Or.inr (Or.inl (by rw [hcode]; rfl)), fun i hi => ?_⟩
  obtain rfl : i = 0 := by omega
  simp [Program.stopPoints, hcode]

end ScriptDebug
