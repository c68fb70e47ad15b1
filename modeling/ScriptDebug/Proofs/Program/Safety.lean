/-
# Compiled code breaks no rule

The code of a program has a shape from end to end, and so has the part of it
before any one of its statements. So on every run the stack is what it was at
the start wherever a statement begins, wherever a block ends and at the end of
the program, and the scope after a block is the scope before it. The only fault
is that of a name of the source that is not bound (`compiled_code_safe`).

The code of a fragment has a shape too, whatever the machine it is run on holds,
so evaluation never meets a breach (`fragmentRun_unbroken`).

Key definitions: `Site`, `bodySites`, `Machine.Safe`.
Key theorems: `bodySites_stands`, `Machine.safe_of_begins`, `compiled_code_safe`.
-/
import ScriptDebug.Proofs.Fragment.Restoration
import ScriptDebug.Proofs.Machine.Invariant
import ScriptDebug.Proofs.Program.Code

namespace ScriptDebug

/-! ### Where the statements stand -/

/-- The code of a statement begins at `start` and has ended at `stop`. -/
structure Site where
  start : Nat
  stop : Nat
  stmt : Stmt

mutual

/-- The sites of a statement whose code begins at `pc`, and of all statements in it. -/
def Stmt.sites (g : Bool) (pc : Nat) (pool : Array Value) (s : Stmt) : List Site :=
  ⟨pc, pc + (s.piece g pc pool).code.length, s⟩ ::
    match s with
    | .block _ body => bodySites g (pc + 1) pool body
    | _ => []

def bodySites (g : Bool) (pc : Nat) (pool : Array Value) : List Stmt → List Site
  | [] => []
  | s :: body =>
    s.sites g pc pool ++
      bodySites g (pc + (s.piece g pc pool).code.length) (s.piece g pc pool).pool body

end

/-- The site is where it says in code that begins at `pc`, and what comes before leaves the stack as
it was. -/
structure Site.Stands (g : Bool) (n pc : Nat) (code : List Instruction) (site : Site) : Prop where
  split : ∃ before after pool,
    code = before ++ (site.stmt.piece g site.start pool).code ++ after ∧
      site.start = pc + before.length ∧
      site.stop = site.start + (site.stmt.piece g site.start pool).code.length ∧
      (site.stmt.piece g site.start pool).pool.size ≤ n ∧
      ∀ h d, ∃ d', Shape.through? n before ⟨h, d⟩ = some ⟨h, d'⟩

namespace Site.Stands

variable {g : Bool} {n pc : Nat} {code : List Instruction} {site : Site}

/-- The first statement of code is where the code begins. -/
theorem here (s : Stmt) (pool : Array Value) (hn : (s.piece g pc pool).pool.size ≤ n) :
    Stands g n pc (s.piece g pc pool).code ⟨pc, pc + (s.piece g pc pool).code.length, s⟩ :=
  ⟨[], [], pool, (List.append_nil _).symm, rfl, rfl, hn, fun _ d => ⟨d, rfl⟩⟩

theorem append_right (h : Stands g n pc code site) (more : List Instruction) :
    Stands g n pc (code ++ more) site := by
  obtain ⟨before, after, pool, rfl, hs, ht, hn, hb⟩ := h.split
  exact ⟨before, after ++ more, pool, by simp only [List.append_assoc], hs, ht, hn, hb⟩

/-- Behind other code that leaves the stack as it was, but may open scopes. -/
theorem append_left (front : List Instruction) (h : Stands g n (pc + front.length) code site)
    (hf : ∀ h d, ∃ d', Shape.through? n front ⟨h, d⟩ = some ⟨h, d'⟩) :
    Stands g n pc (front ++ code) site := by
  obtain ⟨before, after, pool, rfl, hs, ht, hn, hb⟩ := h.split
  refine ⟨front ++ before, after, pool, by simp only [List.append_assoc], ?_, ht, hn, fun h d => ?_⟩
  · rw [hs, List.length_append, Nat.add_assoc]
  · obtain ⟨d₁, h₁⟩ := hf h d
    obtain ⟨d₂, h₂⟩ := hb h d₁
    exact ⟨d₂, by rw [Shape.through?_append, h₁, Option.bind_some, h₂]⟩

end Site.Stands

variable (g : Bool)

mutual

theorem Stmt.stands_of_mem {n : Nat} (pc : Nat) (pool : Array Value) :
    ∀ s : Stmt, (s.piece g pc pool).pool.size ≤ n →
      ∀ site ∈ s.sites g pc pool, site.Stands g n pc (s.piece g pc pool).code
  | .empty span, hn => List.forall_mem_singleton.2 (.here (.empty span) pool hn)
  | .pause span, hn => List.forall_mem_singleton.2 (.here (.pause span) pool hn)
  | .declare span how x init, hn =>
    List.forall_mem_singleton.2 (.here (.declare span how x init) pool hn)
  | .expr span e, hn => List.forall_mem_singleton.2 (.here (.expr span e) pool hn)
  | .block span body, hn => by
    refine List.forall_mem_cons.2 ⟨.here (.block span body) pool hn, fun site hs => ?_⟩
    have h := bodySites_stands (pc + 1) pool body hn site hs
    exact (h.append_right [.leaveBlock]).append_left [.enterBlock] fun h d => ⟨d + 1, rfl⟩

/-- Every statement stands at its site. -/
theorem bodySites_stands {n : Nat} (pc : Nat) (pool : Array Value) :
    ∀ body : List Stmt, (bodyPiece g pc pool body).pool.size ≤ n →
      ∀ site ∈ bodySites g pc pool body, site.Stands g n pc (bodyPiece g pc pool body).code
  | [], _ => fun _ hs => nomatch hs
  | s :: body, hn => by
    have hle := Nat.le_trans (bodyPiece_extends g _ _ body).size_le hn
    rw [(bodyPiece_cons g pc pool s body).1]
    refine List.forall_mem_append.2 ⟨fun site hs => ?_, fun site hs => ?_⟩
    · exact (s.stands_of_mem pc pool hle site hs).append_right _
    · exact (bodySites_stands _ _ body hn site hs).append_left _ fun h d =>
        ⟨d, s.through_piece g pc pool h d hle⟩

end

/-! ### Programs whose code has a shape -/

/-- The code of the program is `code` and a halt; it has a shape that is the same at both ends, uses
the names of a vocabulary, and its constants are literals. -/
structure Program.Shaped (p : Program) (V : Vocabulary) (code : List Instruction) : Prop where
  code_eq : p.code.toList = code ++ [.halt]
  through : ∀ h d, Shape.through? p.constants.size code ⟨h, d⟩ = some ⟨h, d⟩
  within : ∀ i ∈ code, i.Within V
  literal : ∀ v ∈ p.constants, v.IsLiteral

theorem Program.shaped_ofTree {V : Vocabulary} (hV : ∀ x, V.number x → Number.Unsigned x)
    (source : Source) (mode : Mode) {body : List Stmt} (hw : BodyWithin V body) :
    (ofTree source mode body).Shaped V
      (bodyPiece mode.globalSelf 0 #[] (mode.unit body)).code where
  code_eq := ofTree_code source mode body
  through h d := by
    rw [ofTree_constants]
    exact bodyPiece_through _ 0 #[] h d _ (Nat.le_refl _)
  within := bodyPiece_within _ 0 #[] _ (unit_within mode hw)
  literal := by
    rw [ofTree_constants]
    exact bodyPiece_literal _ hV 0 #[] (by simp) _ (unit_within mode hw)

/-- What a source compiles to has a shape. -/
theorem Program.shaped_ofSource {source : Source} (mode : Mode) {body : List Stmt}
    (h : Tree.ofSource source = .ok body) :
    (ofTree source mode body).Shaped source.vocabulary
      (bodyPiece mode.globalSelf 0 #[] (mode.unit body)).code :=
  shaped_ofTree (fun _ hx => hx) source mode (Tree.ofSource_within h)

theorem Value.IsLiteral.resolved {v : Value} (h : v.IsLiteral) : v.Resolved := by
  rintro x rfl
  exact h

/-! ### Runs of code with a shape -/

namespace Machine

/-- The machine is about to run a program, and what lies on its stack is out of reach for no more
than the frame's own floor. -/
structure Begins (m : Machine) (p : Program) : Prop where
  program : m.frame.program = p
  pc : m.frame.pc = 0
  floor : m.floor ≤ m.height

theorem begins_start (p : Program) : (start p).Begins p := ⟨rfl, rfl, Nat.le_refl _⟩

theorem begins_withReceiver (p : Program) (v : Value) : (withReceiver p v).Begins p :=
  ⟨rfl, rfl, Nat.le_refl _⟩

theorem begins_enterFragment (m : Machine) (p : Program) : (m.enterFragment p).Begins p :=
  ⟨rfl, rfl, Nat.le_refl _⟩

/-- Nothing that happens on a run from `m₀` breaks a rule. A fault is that of a name among `names`
and leaves the machine as it is, so it is the last thing that happens. The statements at `sites`
find the stack of the start, and leave it and the scope they found. -/
structure Safe (m₀ : Machine) (names : String → Prop) (g : Bool) (sites : List Site) : Prop where
  faults : ∀ m f m', m₀.Reaches m → m.hasInstructions = true → m.step = .raised f m' →
    m' = m ∧ ∃ x, f = .unbound x ∧ names x
  starts : ∀ site ∈ sites, ∀ m, m₀.Reaches m → m.frame.pc = site.start →
    m.stack = m₀.stack ∧ ∃ pool, (site.stmt.piece g site.start pool).code <+: m.ahead
  leaves : ∀ site ∈ sites, ∀ span body, site.stmt = .block span body →
    ∀ m, m₀.Reaches m → m.frame.pc + 1 = site.stop →
      m.stack = m₀.stack ∧ m.ahead.head? = some .leaveBlock
  stops : ∀ site ∈ sites, ∀ m m', m₀.Reaches m → m.frame.pc = site.start → m₀.Reaches m' →
    m'.frame.pc = site.stop → m'.stack = m₀.stack ∧ m'.frame.chain = m.frame.chain
  ends : ∀ m, m₀.Reaches m → m.hasInstructions = false →
    m.stack = m₀.stack ∧ m.frame.chain = m₀.frame.chain

section

variable {m₀ m : Machine} {p : Program} {before after : List Instruction}

theorem ahead_of_begins (hb : m₀.Begins p) : m₀.ahead = p.code.toList := by
  rw [ahead, hb.program, hb.pc, List.drop_zero]

/-- The counter counts the steps from the start. -/
theorem pc_of_begins {n : Nat} (hb : m₀.Begins p) (hn : m₀.steps n = .done m) :
    m.frame.pc = n := by
  rw [(keeps_steps hn).2, hb.pc, Nat.zero_add]

theorem hasInstructions_of_begins {n : Nat} (hb : m₀.Begins p) (hn : m₀.steps n = .done m) :
    m.hasInstructions = decide (n < p.code.size) := by
  rw [hasInstructions, (keeps_steps hn).1.program, hb.program, pc_of_begins hb hn]

/-- No step goes past the end. -/
theorem steps_le {n : Nat} (hb : m₀.Begins p) (hn : m₀.steps n = .done m) : n ≤ p.code.size := by
  cases n with
  | zero => exact Nat.zero_le _
  | succ n =>
    obtain ⟨m₁, hm₁, hstep⟩ := steps_last hn
    have hi := hasInstructions_of_step hstep
    rw [hasInstructions_of_begins hb hm₁] at hi
    exact of_decide_eq_true hi

theorem ahead_of_reaches (hb : m₀.Begins p) (hr : m₀.Reaches m) :
    m.ahead = p.code.toList.drop m.frame.pc := by
  obtain ⟨n, hn⟩ := hr
  rw [ahead, (keeps_steps hn).1.program, hb.program]

/-- A state that a run reaches is that after the code before its counter. -/
theorem execute_of_reaches (hb : m₀.Begins p) (hc : p.code.toList = before ++ after)
    (hr : m₀.Reaches m) (hpc : m.frame.pc = before.length) : execute before m₀ = .done m := by
  obtain ⟨n, hn⟩ := hr
  have he : n = before.length := (pc_of_begins hb hn).symm.trans hpc
  rw [← steps_eq_execute ((ahead_of_begins hb).trans hc), ← he, hn]

/-- It has the shape of that code. -/
theorem over_of_reaches {V : Vocabulary} {t : Shape} (hb : m₀.Begins p)
    (hc : p.code.toList = before ++ after) (hV : ∀ i ∈ before, i.Within V)
    (ht : Shape.through? p.constants.size before ⟨0, 0⟩ = some t) (hr : m₀.Reaches m)
    (hpc : m.frame.pc = before.length) : m₀.Over t m ∧ m.ahead = after := by
  have hx := execute_over hb.floor hV (.refl m₀) (hb.program.symm ▸ ht)
  rw [execute_of_reaches hb hc hr hpc] at hx
  refine ⟨hx.of_done, ?_⟩
  rw [ahead_of_reaches hb hr, hpc, hc, List.drop_left]

variable {V : Vocabulary} {code : List Instruction}

/-- The state before an instruction that is not the halt. -/
theorem over_of_split (hb : m₀.Begins p) (hp : p.Shaped V code) (hc : code = before ++ after)
    (hr : m₀.Reaches m) (hpc : m.frame.pc = before.length) :
    ∃ t, Shape.through? p.constants.size before ⟨0, 0⟩ = some t ∧ m₀.Over t m ∧
      m.ahead = after ++ [.halt] := by
  have hthrough := hp.through 0 0
  rw [hc] at hthrough
  obtain ⟨t, ht⟩ := Shape.through?_prefix hthrough
  have hsplit : p.code.toList = before ++ (after ++ [.halt]) := by
    rw [hp.code_eq, hc, List.append_assoc]
  have hV : ∀ i ∈ before, i.Within V := fun i hi =>
    hp.within i (hc ▸ List.mem_append_left _ hi)
  exact ⟨t, ht, over_of_reaches hb hsplit hV ht hr hpc⟩

/-- Code is over, or there is an instruction of it to execute. -/
theorem split_of_reaches (hb : m₀.Begins p) (hp : p.Shaped V code) (hr : m₀.Reaches m)
    (hi : m.hasInstructions = true) :
    m.ahead = [.halt] ∨ ∃ before i after, code = before ++ i :: after ∧
      m.frame.pc = before.length ∧ m.ahead = i :: (after ++ [.halt]) := by
  have ha := ahead_of_reaches hb hr
  rw [hp.code_eq] at ha
  rcases Nat.lt_or_ge m.frame.pc code.length with hlt | hge
  · refine Or.inr ⟨code.take m.frame.pc, code[m.frame.pc], code.drop (m.frame.pc + 1), ?_, ?_, ?_⟩
    · rw [← List.drop_eq_getElem_cons hlt, List.take_append_drop]
    · rw [List.length_take, Nat.min_eq_left (Nat.le_of_lt hlt)]
    · rw [ha, List.drop_append_of_le_length (Nat.le_of_lt hlt), List.drop_eq_getElem_cons hlt,
        List.cons_append]
  · left
    rw [List.drop_append, List.drop_eq_nil_of_le hge, List.nil_append] at ha
    have hne := (hasInstructions_iff m).1 hi
    rw [ha] at hne ⊢
    cases hk : m.frame.pc - code.length with
    | zero => rfl
    | succ k => simp [hk] at hne

/-- Only names that are not bound raise faults. -/
theorem fault_of_reaches (hb : m₀.Begins p) (hp : p.Shaped V code) (hres : m₀.Resolved)
    {f : Fault} {m' : Machine} (hr : m₀.Reaches m) (hi : m.hasInstructions = true)
    (hs : m.step = .raised f m') : m' = m ∧ ∃ x, f = .unbound x ∧ V.reads x := by
  rcases split_of_reaches hb hp hr hi with ha | ⟨before, i, after, hc, hpc, ha⟩
  · rw [step_of_ahead ha] at hs
    cases hs
  · obtain ⟨t, ht, ho, -⟩ := over_of_split hb hp hc hr hpc
    have hm : m.Resolved := by
      have hres := (resolved_execute hres before).machine
      have hsplit : p.code.toList = before ++ (i :: after ++ [.halt]) := by
        rw [hp.code_eq, hc, List.append_assoc]
      rwa [execute_of_reaches hb hsplit hr hpc] at hres
    have hthrough := hp.through 0 0
    rw [hc, Shape.through?_append, ht, Option.bind_some] at hthrough
    obtain ⟨u, hu, -⟩ := Option.bind_eq_some_iff.1 hthrough
    have hx := perform_over hb.floor (hp.within i (hc ▸ by simp)) ho (hb.program.symm ▸ hu)
    have hy := resolved_perform hm i
    rw [step_of_ahead ha] at hs
    cases hperf : m.perform i with
    | done m₁ => simp [hperf] at hs
    | raised f₁ m₁ =>
      rw [hperf] at hs hx hy
      cases hs
      cases hx with
      | unbound x hx => exact ⟨(perform_unbound hperf).2, x, rfl, hx⟩
      | unresolvedOperand x => exact absurd rfl (hy.fault x)

variable {g : Bool} {site : Site}

/-- Where a statement begins the stack is that of the start. -/
theorem stack_at_start (hb : m₀.Begins p) (hp : p.Shaped V code)
    (hs : site.Stands g p.constants.size 0 code) (hr : m₀.Reaches m)
    (hpc : m.frame.pc = site.start) :
    m.stack = m₀.stack ∧ ∃ pool, (site.stmt.piece g site.start pool).code <+: m.ahead := by
  obtain ⟨before, after, pool, hc, hstart, -, -, hbefore⟩ := hs.split
  rw [List.append_assoc] at hc
  rw [hstart, Nat.zero_add] at hpc
  obtain ⟨t, ht, ho, ha⟩ := over_of_split hb hp hc hr hpc
  obtain ⟨d, hd⟩ := hbefore 0 0
  cases ht.symm.trans hd
  refine ⟨ho.stack_eq, pool, ?_⟩
  rw [ha, List.append_assoc]
  exact List.prefix_append _ _

/-- Where a block ends, and before its scope is left, the stack is that of the start. -/
theorem stack_at_leave (hb : m₀.Begins p) (hp : p.Shaped V code)
    (hs : site.Stands g p.constants.size 0 code) {span : Span} {body : List Stmt}
    (hstmt : site.stmt = .block span body) (hr : m₀.Reaches m)
    (hpc : m.frame.pc + 1 = site.stop) :
    m.stack = m₀.stack ∧ m.ahead.head? = some .leaveBlock := by
  obtain ⟨before, after, pool, hc, hstart, hstop, hn, hbefore⟩ := hs.split
  rw [hstmt, Stmt.code_block] at hc hstop
  rw [hstmt, Stmt.pool_block] at hn
  obtain ⟨d, hd⟩ := hbefore 0 0
  have hin : Shape.through? p.constants.size
      (before ++ .enterBlock :: (bodyPiece g (site.start + 1) pool body).code) ⟨0, 0⟩ =
        some ⟨0, d + 1⟩ := by
    rw [Shape.through?_append, hd, Option.bind_some]
    exact bodyPiece_through g (site.start + 1) pool 0 (d + 1) body hn
  have hc : code = (before ++ .enterBlock :: (bodyPiece g (site.start + 1) pool body).code) ++
      (.leaveBlock :: after) := by
    rw [hc]
    simp only [List.append_assoc, List.cons_append, List.nil_append]
  have hlen : m.frame.pc =
      (before ++ .enterBlock :: (bodyPiece g (site.start + 1) pool body).code).length := by
    simp only [List.length_append, List.length_cons, List.length_nil] at hstop ⊢
    omega
  obtain ⟨t, ht, ho, ha⟩ := over_of_split hb hp hc hr hlen
  cases ht.symm.trans hin
  exact ⟨ho.stack_eq, by rw [ha]; rfl⟩

/-- A statement leaves the stack of the start and the scope that it found. -/
theorem chain_at_stop (hb : m₀.Begins p) (hp : p.Shaped V code)
    (hs : site.Stands g p.constants.size 0 code) {m' : Machine} (hr : m₀.Reaches m)
    (hpc : m.frame.pc = site.start) (hr' : m₀.Reaches m') (hpc' : m'.frame.pc = site.stop) :
    m'.stack = m₀.stack ∧ m'.frame.chain = m.frame.chain := by
  have hstack := (stack_at_start hb hp hs hr hpc).1
  obtain ⟨before, after, pool, hc, hstart, hstop, hn, -⟩ := hs.split
  rw [hstart, Nat.zero_add] at hpc
  have hcode : p.code.toList = before ++
      ((site.stmt.piece g site.start pool).code ++ (after ++ [.halt])) := by
    rw [hp.code_eq, hc]
    simp only [List.append_assoc]
  have hx := execute_of_reaches hb hcode hr hpc
  have hlen : m'.frame.pc = (before ++ (site.stmt.piece g site.start pool).code).length := by
    rw [List.length_append]
    omega
  have hx' := execute_of_reaches hb ((List.append_assoc _ _ _).symm ▸ hcode) hr' hlen
  rw [execute_append, hx, Outcome.andThen_done] at hx'
  have hk : m₀.SameFrame m := hr.elim fun _ h => (keeps_steps h).1
  have hfloor : m.floor ≤ m.height := by
    rw [hk.floor, height, hstack]
    exact hb.floor
  have hV : ∀ i ∈ (site.stmt.piece g site.start pool).code, i.Within V := fun i hi =>
    hp.within i (hc ▸ List.mem_append_left _ (List.mem_append_right _ hi))
  have hthrough := site.stmt.through_piece g site.start pool 0 0 hn
  rw [← hb.program, ← hk.program] at hthrough
  have ho := execute_over hfloor hV (.refl m) hthrough
  rw [hx'] at ho
  exact ⟨ho.of_done.stack_eq.trans hstack, ho.of_done.chain_eq⟩

/-- At the end everything opened is closed. -/
theorem chain_at_end (hb : m₀.Begins p) (hp : p.Shaped V code) (hr : m₀.Reaches m)
    (hi : m.hasInstructions = false) : m.stack = m₀.stack ∧ m.frame.chain = m₀.frame.chain := by
  have hsize : p.code.size = code.length + 1 := by
    rw [← Array.length_toList, hp.code_eq, List.length_append]
    rfl
  obtain ⟨n, hn⟩ := hr
  rw [hasInstructions_of_begins hb hn, decide_eq_false_iff_not, hsize] at hi
  have hle := steps_le hb hn
  obtain rfl : n = code.length + 1 := by omega
  -- the last step was that of the halt
  obtain ⟨m₁, hm₁, hstep⟩ := steps_last hn
  obtain ⟨t, ht, ho, ha⟩ :=
    over_of_split hb hp (List.append_nil code).symm ⟨_, hm₁⟩ (pc_of_begins hb hm₁)
  cases ht.symm.trans (hp.through 0 0)
  rw [step_of_ahead ha] at hstep
  cases hstep
  exact ⟨ho.stack_eq, ho.chain_eq⟩

end

/-- A run of a compiled program is safe. -/
theorem safe_of_begins {m₀ : Machine} {source : Source} {mode : Mode} {body : List Stmt}
    (h : Tree.ofSource source = .ok body) (hb : m₀.Begins (Program.ofTree source mode body))
    (hres : m₀.Resolved) :
    m₀.Safe source.Names mode.globalSelf (bodySites mode.globalSelf 0 #[] (mode.unit body)) := by
  have hp := Program.shaped_ofSource mode h
  have hs : ∀ site ∈ bodySites mode.globalSelf 0 #[] (mode.unit body),
      site.Stands mode.globalSelf (Program.ofTree source mode body).constants.size 0
        (bodyPiece mode.globalSelf 0 #[] (mode.unit body)).code :=
    bodySites_stands _ 0 #[] _ (Nat.le_of_eq (by rw [Program.ofTree_constants]))
  exact
    { faults := fun m f m' hr hi hf => fault_of_reaches hb hp hres hr hi hf
      starts := fun site hmem m hr hpc => stack_at_start hb hp (hs site hmem) hr hpc
      leaves := fun site hmem span body hstmt m hr hpc =>
        stack_at_leave hb hp (hs site hmem) hstmt hr hpc
      stops := fun site hmem m m' hr hpc hr' hpc' =>
        chain_at_stop hb hp (hs site hmem) hr hpc hr' hpc'
      ends := fun m hr hi => chain_at_end hb hp hr hi }

theorem resolved_start {p : Program} {V : Vocabulary} {code : List Instruction}
    (hp : p.Shaped V code) : (start p).Resolved where
  constants v hv := (hp.literal v hv).resolved
  stack := List.forall_mem_nil _
  scopes i := by
    have he : (start p).scopes.read i = .empty := by
      simp only [start, Scopes.start, Scopes.read]
      cases i <;> rfl
    rw [he]
    exact Bindings.resolved_empty
  globals := Bindings.resolved_empty

theorem resolved_withReceiver {p : Program} {V : Vocabulary} {code : List Instruction}
    (hp : p.Shaped V code) {v : Value} (hv : v.Resolved) : (withReceiver p v).Resolved where
  constants := (resolved_start hp).constants
  stack := List.forall_mem_singleton.2 hv
  scopes := (resolved_start hp).scopes
  globals := (resolved_start hp).globals

/-! ### Whole runs -/

/-- A run executes the code and then halts. -/
theorem run_of_begins {m₀ : Machine} {p : Program} {V : Vocabulary} {code : List Instruction}
    (hb : m₀.Begins p) (hp : p.Shaped V code) (hh : m₀.halted = false) :
    m₀.run = (execute code m₀).andThen fun m => .done { m with halted := true }.advance := by
  have ha : m₀.ahead = code ++ [.halt] := (ahead_of_begins hb).trans hp.code_eq
  rw [run_eq_execute hh ha (Shape.halt_not_mem (hp.through 0 0)), execute_append]
  rfl

/-- A run takes all the steps that there are. -/
theorem run_eq_steps_of_begins {m₀ : Machine} {p : Program} {V : Vocabulary}
    {code : List Instruction} (hb : m₀.Begins p) (hp : p.Shaped V code)
    (hh : m₀.halted = false) : m₀.run = m₀.steps p.code.size := by
  have ha : m₀.ahead = code ++ [.halt] := (ahead_of_begins hb).trans hp.code_eq
  rw [run_eq_steps hh ha (Shape.halt_not_mem (hp.through 0 0)), ahead_of_begins hb,
    Array.length_toList]

/-- A state that has instructions left and raises a fault is the end of the run. -/
theorem run_of_raised {m₀ m m' : Machine} {p : Program} {V : Vocabulary} {code : List Instruction}
    {n : Nat} {f : Fault} (hb : m₀.Begins p) (hp : p.Shaped V code) (hh : m₀.halted = false)
    (hn : m₀.steps n = .done m) (hi : m.hasInstructions = true) (hs : m.step = .raised f m') :
    m₀.run = .raised f m' := by
  rw [hasInstructions_of_begins hb hn, decide_eq_true_eq] at hi
  obtain ⟨k, hk⟩ : ∃ k, p.code.size = n + (k + 1) := ⟨p.code.size - n - 1, by omega⟩
  rw [run_eq_steps_of_begins hb hp hh, hk, steps_add, hn, Outcome.andThen_done, steps_succ, hs,
    Outcome.andThen_raised]

/-- So is a state that has none left. -/
theorem run_of_ended {m₀ m : Machine} {p : Program} {V : Vocabulary} {code : List Instruction}
    {n : Nat} (hb : m₀.Begins p) (hp : p.Shaped V code) (hh : m₀.halted = false)
    (hn : m₀.steps n = .done m) (hi : m.hasInstructions = false) : m₀.run = .done m := by
  rw [hasInstructions_of_begins hb hn, decide_eq_false_iff_not] at hi
  rw [run_eq_steps_of_begins hb hp hh, Nat.le_antisymm (Nat.le_of_not_lt hi) (steps_le hb hn), hn]

/-- The code of a fragment is that of its statements in a block. -/
def fragmentCode (g : Bool) (body : List Stmt) : List Instruction :=
  .enterBlock :: ((bodyPiece g 1 #[] body).code ++ [.leaveBlock])

theorem unit_code (g : Bool) (body : List Stmt) :
    (bodyPiece g 0 #[] (Mode.unit ⟨true, g⟩ body)).code = fragmentCode g body := by
  have hunit : Mode.unit ⟨true, g⟩ body = [.block ⟨0, 0⟩ body] := rfl
  rw [hunit, (bodyPiece_cons g 0 #[] (.block ⟨0, 0⟩ body) []).1, Stmt.code_block]
  exact List.append_nil _

/-- A fragment runs to the end of its block and halts. -/
theorem fragmentRun_eq {m : Machine} {text : String} {p : Program}
    (h : m.fragmentProgram text = .ok p) :
    ∃ body, Tree.ofSource (Source.ofText fragmentName text) = .ok body ∧
      p.constants = (bodyPiece m.hasGlobalSelf 1 #[] body).pool ∧
      p.Shaped (Source.ofText fragmentName text).vocabulary
        (fragmentCode m.hasGlobalSelf body) ∧
      m.fragmentRun p = (execute (fragmentCode m.hasGlobalSelf body) (m.enterFragment p)).andThen
        fun m => .done { m with halted := true }.advance := by
  obtain ⟨body, hbody, rfl⟩ := Program.ofSource_eq_ok.1 h
  have hp := Program.shaped_ofSource ⟨true, m.hasGlobalSelf⟩ hbody
  rw [unit_code] at hp
  exact ⟨body, hbody, Program.ofTree_constants _ _ body, hp,
    run_of_begins (m.begins_enterFragment _) hp rfl⟩

/-- **A fragment breaks no rule**, on whatever machine it is run. -/
theorem fragmentRun_unbroken {m : Machine} {text : String} {p : Program}
    (h : m.fragmentProgram text = .ok p) :
    (m.fragmentRun p).Unbroken (Source.ofText fragmentName text).Names fun _ => True := by
  obtain ⟨body, -, -, hp, hrun⟩ := fragmentRun_eq h
  have hb := m.begins_enterFragment p
  rw [hrun]
  exact (execute_over hb.floor hp.within (.refl _) (hp.through 0 0)).andThen fun _ _ => .done trivial

end Machine

/-- **Compiled code breaks no rule of the machine.** On every run of a compiled program, with or
without a receiver that stands for something, faults are those of names of the source that are not
bound, the stack is that of the start wherever a statement begins, wherever a block ends and at the
end, and the scope after a block is that before it. And whatever the state of a machine, no fragment
ends in a breach. -/
theorem compiled_code_safe {source : Source} {mode : Mode} {p : Program}
    (h : Program.ofSource source mode = .ok p) :
    (∃ body, Tree.ofSource source = .ok body ∧
      ∀ m₀, (m₀ = Machine.start p ∨ ∃ v : Value, v.Resolved ∧ m₀ = Machine.withReceiver p v) →
        m₀.Safe source.Names mode.globalSelf
          (bodySites mode.globalSelf 0 #[] (mode.unit body))) ∧
      ∀ (m : Machine) (text : String), (m.evaluate text).outcome ≠ .error .unrecoverable := by
  constructor
  · obtain ⟨body, hbody, rfl⟩ := Program.ofSource_eq_ok.1 h
    have hp := Program.shaped_ofSource mode hbody
    refine ⟨body, hbody, fun m₀ hm => ?_⟩
    rcases hm with rfl | ⟨v, hv, rfl⟩
    · exact Machine.safe_of_begins hbody (Machine.begins_start _) (Machine.resolved_start hp)
    · exact Machine.safe_of_begins hbody (Machine.begins_withReceiver _ v)
        (Machine.resolved_withReceiver hp hv)
  · intro m text
    cases hf : m.fragmentProgram text with
    | error e =>
      rw [(Machine.evaluate_of_error hf).2]
      exact nofun
    | ok p =>
      rw [(Machine.evaluate_of_ok hf).2]
      have hu := Machine.fragmentRun_unbroken hf
      cases ho : m.fragmentRun p with
      | done m' => exact nofun
      | raised f m' =>
        rw [ho] at hu
        cases hu <;> exact nofun

set_option maxRecDepth 100000 in
/-- A program with nested blocks that ends in the fault of a name. -/
theorem nested_blocks_safe :
    let source := Source.ofText "s" "let a; { var c = a; { a = a + c; } } b;"
    ∃ p, Program.ofSource source .script = .ok p ∧
      (∃ body, Tree.ofSource source = .ok body ∧
        ∀ m₀, (m₀ = Machine.start p ∨ ∃ v : Value, v.Resolved ∧ m₀ = Machine.withReceiver p v) →
          m₀.Safe source.Names true (bodySites true 0 #[] body)) ∧
        ∀ (m : Machine) (text : String), (m.evaluate text).outcome ≠ .error .unrecoverable := by
  intro source
  obtain ⟨p, hp⟩ : ∃ p, Program.ofSource source .script = .ok p := ⟨_, by cbv⟩
  exact ⟨p, hp, compiled_code_safe hp⟩

end ScriptDebug
