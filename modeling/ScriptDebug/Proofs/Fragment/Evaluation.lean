/-
# A fragment computes what it means

Executing the code of a tree does to the heap of any machine what the evaluator
does to that heap, and raises the same fault at the same place. In contrast to a
script, which begins in a machine of its own, nothing is asked of the scopes, the
globals and the values in them: only that the frame has its receiver within its
own part of the stack (`Machine.Ready`). The frame of a fragment has it, on every
machine, so an evaluation has the outcome and the effects of the reference
(`evaluate_eq_reference`).

The induction is on the tree. Where the code of a fragment reads `this` as the
global object, that is the receiver it was entered with. And where a script could
be, the two evaluators say the same (`Machine.evalFragment_eq_eval`).

Key definitions: `Machine.Ready`, `HeapAgrees`.
Key theorems: `Expr.heapAgrees`, `bodyPiece_heapAgrees`, `Machine.evaluate_of_body`,
`Machine.evalFragment_eq_eval`, `evaluate_eq_reference`.
-/
import ScriptDebug.Proofs.Fragment.Meaning
import ScriptDebug.Proofs.Program.Correctness

namespace ScriptDebug

/-! ### What the induction carries -/

/-- The frame has its own part of the stack, and `v` is what `this` is compiled to give. -/
structure Machine.Ready (m : Machine) (g : Bool) (v : Value) : Prop where
  floor : m.floor ≤ m.height
  receiver : (if g then .object .global else m.self) = v

theorem Machine.Ready.execute {m m' : Machine} {g : Bool} {self : Value} {is : List Instruction}
    (h : m.Ready g self) (he : Machine.execute is m = .done m') :
    m'.Ready g self ∧ m.SameFrame m' := by
  have hframe := m.sameFrame_execute is
  rw [he] at hframe
  have hself : m'.self = m.self := hframe.self_eq h.floor
  exact ⟨⟨hframe.floor_le h.floor, hself ▸ h.receiver⟩, hframe⟩

/-- A fragment finds the receiver it was entered with, also where it takes it for granted that this
is the global object. -/
theorem Machine.ready_enterFragment (m : Machine) (p : Program) :
    (m.enterFragment p).Ready m.hasGlobalSelf m.self where
  floor := Nat.le_refl _
  receiver := by
    have hself : (m.enterFragment p).self = m.self := by
      simp [Machine.self, receiver?, enterFragment, enter, height]
    by_cases hg : m.hasGlobalSelf = true
    · rw [if_pos hg]
      unfold hasGlobalSelf at hg
      split at hg
      · rename_i ref href
        rw [href, of_decide_eq_true hg]
      · cases hg
    · rw [if_neg hg, hself]

/-- The outcome of code agrees with the result of an evaluation: the same heap, and the stack and
the scopes that were asked for, or the same fault at the same heap. -/
inductive HeapAgrees {α : Type} (stack : α → List Value) (chain : Chain) :
    Outcome → EStateM.Result Fault Heap α → Prop
  | done {m : Machine} {a : α} {h : Heap} : m.heap = h → m.stack = stack a →
    m.frame.chain = chain → HeapAgrees stack chain (.done m) (.ok a h)
  | raised {m : Machine} {f : Fault} {h : Heap} : m.heap = h →
    HeapAgrees stack chain (.raised f m) (.error f h)

namespace HeapAgrees

variable {α β : Type} {stack : α → List Value} {stack' : β → List Value} {chain chain' : Chain}

/-- Code after code is evaluation after evaluation. -/
theorem bind {is js : List Instruction} {m : Machine} {h : Heap} {e : HeapEval α}
    {f : α → HeapEval β} (he : HeapAgrees stack chain (Machine.execute is m) (e h))
    (hf : ∀ m' a, Machine.execute is m = .done m' → m'.stack = stack a →
      m'.frame.chain = chain → HeapAgrees stack' chain' (Machine.execute js m') (f a m'.heap)) :
    HeapAgrees stack' chain' (Machine.execute (is ++ js) m) ((e >>= f) h) := by
  have hbind : (e >>= f) h = EStateM.bind e f h := rfl
  rw [Machine.execute_append, hbind]
  unfold EStateM.bind
  cases ho : Machine.execute is m with
  | done m' =>
    rw [ho] at he
    cases hr : e h with
    | ok a h' =>
      rw [hr] at he
      cases he with
      | done hh hs hc =>
        subst hh
        exact hf m' a ho hs hc
    | error fault h' =>
      rw [hr] at he
      cases he
  | raised fault m' =>
    rw [ho] at he
    cases hr : e h with
    | ok a h' =>
      rw [hr] at he
      cases he
    | error fault' h' =>
      rw [hr] at he
      cases he with
      | raised hh => exact .raised hh

/-- One instruction that does what the evaluator does. -/
theorem single {i : Instruction} {m m' : Machine} {a : α} {h : Heap} (hi : m.perform i = .done m')
    (hh : m'.heap = h) (hs : m'.stack = stack a) (hc : m'.frame.chain = chain) :
    HeapAgrees stack chain (Machine.execute [i] m) (.ok a h) := by
  rw [Machine.execute_cons, hi]
  exact .done hh hs hc

/-- What comes after all code changes neither the heap nor the stack, and makes other scopes
visible. -/
theorem andThen {o : Outcome} {r : EStateM.Result Fault Heap α} {k : Machine → Outcome}
    (hr : HeapAgrees stack chain o r)
    (hk : ∀ m : Machine, m.frame.chain = chain →
      ∃ m', k m = .done m' ∧ m'.heap = m.heap ∧ m'.stack = m.stack ∧ m'.frame.chain = chain') :
    HeapAgrees stack chain' (o.andThen k) r := by
  cases hr with
  | @done m a h hh hs hc =>
    obtain ⟨m', hdone, hh', hs', hc'⟩ := hk m hc
    rw [Outcome.andThen_done, hdone]
    exact .done (hh'.trans hh) (hs'.trans hs) hc'
  | raised hh => exact .raised hh

/-- At the end of a block the scopes are those around it. -/
theorem leave {is : List Instruction} {m : Machine} {i : ScopeId} {r : EStateM.Result Fault Heap α}
    (hr : HeapAgrees stack (chain.push i) (Machine.execute is m) r) :
    HeapAgrees stack chain (Machine.execute (is ++ [.leaveBlock]) m) r := by
  rw [Machine.execute_append]
  apply hr.andThen
  intro m' hc
  obtain ⟨m'', hl, hdone, hst, hch⟩ := Machine.perform_leaveBlock hc
  have hexecute : Machine.execute [.leaveBlock] m' = .done m''.advance := by
    rw [Machine.execute_cons, hdone]
    rfl
  have hheap : m''.heap = m'.heap := Machine.heap_leaveBlock hl
  exact ⟨m''.advance, hexecute, hheap, hst, hch⟩

end HeapAgrees

/-! ### Expressions -/

/-- Operators do to any two values what they mean. -/
theorem Machine.binary_heapAgrees {m : Machine} (op : BinaryOp) {a b : Value} {rest : List Value}
    (hs : m.stack = b :: a :: rest) (hf : m.floor ≤ rest.length) :
    HeapAgrees (· :: rest) m.frame.chain (Machine.execute [.binary op] m)
      (HeapEval.operate op a b m.heap) := by
  have hright := Machine.withTop_of_stack hs (Nat.le_succ_of_le hf)
  have hleft := Machine.withTop_of_stack (m := { m with stack := a :: rest }) rfl hf
  simp only [Machine.execute_cons, Machine.perform]
  rw [hright, hleft]
  unfold HeapEval.operate
  cases op.apply a b with
  | ok v => exact .done rfl rfl rfl
  | error fault => exact .raised rfl

/-- **Expressions.** Their code computes the value that the evaluator computes. -/
theorem Expr.heapAgrees {V : Vocabulary} (hV : ∀ x, V.number x → Number.Unsigned x) {g : Bool}
    {self : Value} (e : Expr) (he : e.Within V) {pool : Array Value}
    (hp : ∀ v ∈ pool, v.IsLiteral) {m : Machine} (hm : m.Ready g self)
    (hc : Extends (e.code g pool).2 m.frame.program.constants) :
    HeapAgrees (· :: m.stack) m.frame.chain (Machine.execute (e.code g pool).1 m)
      (e.evalIn self m.frame.chain m.heap) := by
  induction e generalizing pool m with
  | number x =>
    have hx : (Value.number x).IsLiteral := hV x he
    have hplaced := hc _ _ (place_spec hx hp).1
    exact .single (Machine.perform_loadConst hplaced) rfl rfl rfl
  | string s =>
    have hs : (Value.string s).IsLiteral := trivial
    have hplaced := hc _ _ (place_spec hs hp).1
    exact .single (Machine.perform_loadConst hplaced) rfl rfl rfl
  | bool | null | undefined => exact .single rfl rfl rfl rfl
  | self =>
    have hself : m.perform (if g then .loadGlobalThis else .loadThis) = .done (m.push self) := by
      rw [← hm.receiver]
      cases g <;> rfl
    exact .single hself rfl rfl rfl
  | name x =>
    have hlookup : m.heap.lookup? m.frame.chain x = m.lookup? x := rfl
    simp only [code, evalIn, HeapEval.read, hlookup, Machine.execute_cons, Machine.perform]
    cases m.lookup? x with
    | some v => exact .done rfl rfl rfl
    | none => exact .raised rfl
  | unary op e ih =>
    rw [code_unary]
    apply (ih he hp hm hc).bind
    intro m' v ho hs hch
    have hf : m'.floor ≤ m.stack.length := (hm.execute ho).2.floor ▸ hm.floor
    exact .single (Machine.perform_unary op hs hf) rfl rfl hch
  | binary op l r ihl ihr =>
    rw [code_binary, List.append_assoc]
    have hcl := (extends_code g r (l.code g pool).2).trans hc
    apply (ihl he.1 hp hm hcl).bind
    intro m₁ a ho₁ hs₁ hch₁
    obtain ⟨hm₁, hframe₁⟩ := hm.execute ho₁
    have hpl := literal_code g hV l he.1 pool hp
    have hr := ihr he.2 hpl hm₁ (hframe₁.program ▸ hc)
    rw [hs₁, hch₁] at hr
    apply hr.bind
    intro m₂ b ho₂ hs₂ hch₂
    obtain ⟨-, hframe₂⟩ := hm₁.execute ho₂
    have hf : m₂.floor ≤ m.stack.length := (hframe₁.trans hframe₂).floor ▸ hm.floor
    have hop := m₂.binary_heapAgrees op hs₂ hf
    rwa [hch₂] at hop
  | assign x e ih =>
    rw [code_assign]
    apply (ih he.2 hp hm hc).bind
    intro m' v ho hs hch
    have hheap : (m'.assign x v).heap = m'.heap.assign m.frame.chain x v := by
      rw [m'.heap_assign, hch]
    exact .single (Machine.perform_storeName x hs) hheap ((m'.stack_assign x v).trans hs)
      ((Machine.sameScopes_assign m' x v).1.trans hch)

/-! ### Statements -/

mutual

/-- **Statements.** Their code changes the heap as the evaluator does. -/
theorem Stmt.heapAgrees {V : Vocabulary} (hV : ∀ x, V.number x → Number.Unsigned x) {g : Bool}
    {self : Value} (pc : Nat) (pool : Array Value) (hp : ∀ v ∈ pool, v.IsLiteral) :
    ∀ (s : Stmt) (m : Machine), s.Within V → m.Ready g self →
      Extends (s.piece g pc pool).pool m.frame.program.constants →
      HeapAgrees (fun _ => m.stack) m.frame.chain (Machine.execute (s.piece g pc pool).code m)
        (s.evalIn self m.frame.chain m.heap)
  | .empty _, _, _, _, _ => .done rfl rfl rfl
  | .pause _, _, _, _, _ => .single rfl rfl rfl rfl
  | .declare span how x init, m, hs, hm, hc => by
    rw [Stmt.piece_declare, Stmt.evalIn]
    apply (Expr.heapAgrees hV _ hs.2 hp hm hc).bind
    intro m' v ho hst hch
    have hf : m'.floor ≤ m.stack.length := (hm.execute ho).2.floor ▸ hm.floor
    have hdeclare := Machine.perform_declare how x hst hf
    cases how with
    | lexical =>
      have hheap : ({ m' with stack := m.stack }.define x v).heap =
          m'.heap.define m.frame.chain.inner x v := by
        rw [← hch]
        rfl
      exact .single hdeclare hheap rfl hch
    | globalProperty => exact .single hdeclare rfl rfl hch
  | .expr span e, m, hs, hm, hc => by
    rw [Stmt.piece_expr, Stmt.evalIn]
    apply (e.heapAgrees hV hs hp hm hc).bind
    intro m' v ho hst hch
    have hf : m'.floor ≤ m.stack.length := (hm.execute ho).2.floor ▸ hm.floor
    exact .single (Machine.withTop_of_stack hst hf _) rfl rfl hch
  | .block span body, m, hs, hm, hc => by
    have henter : Machine.execute [.enterBlock] m = .done m.enterBlock.advance := rfl
    have hinside := (hm.execute henter).1
    -- the new scope stands before the others, and nothing else is new in the heap
    have hbody := bodyPiece_heapAgrees hV (pc + 1) pool hp body _ hs hinside hc
    exact hbody.leave

theorem bodyPiece_heapAgrees {V : Vocabulary} (hV : ∀ x, V.number x → Number.Unsigned x)
    {g : Bool} {self : Value} (pc : Nat) (pool : Array Value) (hp : ∀ v ∈ pool, v.IsLiteral) :
    ∀ (body : List Stmt) (m : Machine), BodyWithin V body → m.Ready g self →
      Extends (bodyPiece g pc pool body).pool m.frame.program.constants →
      HeapAgrees (fun _ => m.stack) m.frame.chain
        (Machine.execute (bodyPiece g pc pool body).code m)
        (evalBodyIn self m.frame.chain body m.heap)
  | [], _, _, _, _ => .done rfl rfl rfl
  | s :: body, m, hs, hm, hc => by
    obtain ⟨hcode, hpool⟩ := bodyPiece_cons g pc pool s body
    rw [hpool] at hc
    have hcs := (bodyPiece_extends g _ _ body).trans hc
    rw [hcode, evalBodyIn]
    apply (s.heapAgrees hV pc pool hp m hs.1 hm hcs).bind
    intro m₁ _ ho₁ hst₁ hch₁
    obtain ⟨hm₁, hframe₁⟩ := hm.execute ho₁
    have hlit := s.literal_piece g hV pc pool hp hs.1
    have hbody := bodyPiece_heapAgrees hV _ _ hlit body m₁ hs.2 hm₁ (hframe₁.program ▸ hc)
    rw [hst₁, hch₁] at hbody
    exact hbody

end

/-! ### Fragments -/

namespace Machine

variable {m : Machine} {text : String} {body : List Stmt}

/-- A text that does not parse has no effect. -/
theorem evaluate_of_misread {error : SyntaxError}
    (h : Tree.ofSource (Source.ofText fragmentName text) = .error error) :
    (m.evaluate text).machine = m ∧ (m.evaluate text).outcome = .error (.misread error) := by
  have hp : m.fragmentProgram text = .error error := by
    simp only [fragmentProgram, Program.ofSource, h, Except.map]
  exact evaluate_of_error hp

/-- A text that parses has a program, with the constants of its statements, and the run executes
them in a block and halts. -/
theorem exists_fragmentProgram (h : Tree.ofSource (Source.ofText fragmentName text) = .ok body) :
    ∃ p, m.fragmentProgram text = .ok p ∧
      Extends (bodyPiece m.hasGlobalSelf 1 #[] body).pool p.constants ∧
      m.fragmentRun p = (execute (fragmentCode m.hasGlobalSelf body) (m.enterFragment p)).andThen
        fun m => .done { m with halted := true }.advance := by
  have hp : m.fragmentProgram text = .ok _ := Program.ofSource_eq_ok.2 ⟨body, h, rfl⟩
  obtain ⟨body', hbody', hconst, -, hrun⟩ := fragmentRun_eq hp
  obtain rfl : body = body' := Except.ok.inj (h.symm.trans hbody')
  refine ⟨_, hp, ?_, hrun⟩
  rw [hconst]
  exact .refl _

/-- The code of a fragment agrees with its evaluation. -/
theorem fragmentCode_heapAgrees {p : Program}
    (h : Tree.ofSource (Source.ofText fragmentName text) = .ok body)
    (hpool : Extends (bodyPiece m.hasGlobalSelf 1 #[] body).pool p.constants) :
    HeapAgrees (fun _ => m.self :: m.stack) m.frame.chain
      (execute (fragmentCode m.hasGlobalSelf body) (m.enterFragment p)) (m.evalFragment body) :=
  -- the code is that of the statements in a block
  Stmt.heapAgrees (V := (Source.ofText fragmentName text).vocabulary) (fun _ hx => hx) 0 #[]
    (by simp) (.block ⟨0, 0⟩ body) (m.enterFragment p) (Tree.ofSource_within h)
    (m.ready_enterFragment p) hpool

/-- The run of a fragment agrees with its evaluation, and breaks no rule. -/
theorem exists_fragmentRun (h : Tree.ofSource (Source.ofText fragmentName text) = .ok body) :
    ∃ p, m.fragmentProgram text = .ok p ∧
      HeapAgrees (fun _ => m.self :: m.stack) m.frame.chain (m.fragmentRun p)
        (m.evalFragment body) ∧
      (m.fragmentRun p).Unbroken (Source.ofText fragmentName text).Names fun _ => True := by
  obtain ⟨p, hp, hpool, hrun⟩ := exists_fragmentProgram (m := m) h
  have hcode := fragmentCode_heapAgrees h hpool
  have hagrees : HeapAgrees (fun _ => m.self :: m.stack) m.frame.chain (m.fragmentRun p)
      (m.evalFragment body) := by
    rw [hrun]
    exact hcode.andThen fun m' hc => ⟨_, rfl, rfl, rfl, hc⟩
  exact ⟨p, hp, hagrees, fragmentRun_unbroken hp⟩

/-- **A fragment computes what it means.** -/
theorem evaluate_of_body (h : Tree.ofSource (Source.ofText fragmentName text) = .ok body) :
    ((m.evaluate text).machine, (m.evaluate text).outcome) = m.settle (m.evalFragment body) := by
  obtain ⟨p, hp, hagrees, hunbroken⟩ := exists_fragmentRun (m := m) h
  obtain ⟨hmachine, houtcome⟩ := evaluate_of_ok hp
  rw [hmachine, houtcome]
  generalize m.fragmentRun p = ran at hagrees hunbroken ⊢
  generalize m.evalFragment body = r at hagrees ⊢
  cases hagrees with
  | done hh _ _ =>
    subst hh
    rfl
  | raised hh =>
    subst hh
    cases hunbroken with
    | unbound x _ => rfl
    | unresolvedOperand x => rfl

/-- The only faults of a fragment are those of names. -/
theorem fault_of_evalFragment {f : Fault} {h' : Heap}
    (h : Tree.ofSource (Source.ofText fragmentName text) = .ok body)
    (hr : m.evalFragment body = .error f h') :
    ∃ x, f = .unbound x ∨ f = .unresolvedOperand x := by
  obtain ⟨p, -, hagrees, hunbroken⟩ := exists_fragmentRun (m := m) h
  rw [hr] at hagrees
  generalize m.fragmentRun p = ran at hagrees hunbroken
  cases hagrees with
  | raised _ =>
    cases hunbroken with
    | unbound x _ => exact ⟨x, Or.inl rfl⟩
    | unresolvedOperand x => exact ⟨x, Or.inr rfl⟩

/-! ### Where a script could be -/

/-- A paused script can run a fragment as a part of itself. -/
theorem fit_enterFragment {p : Program} (hp : m.fragmentProgram text = .ok p) (hs : m.WellScoped)
    (hr : m.Resolved) : (m.enterFragment p).Fit m.hasGlobalSelf m.self := by
  obtain ⟨_, -, -, hshaped, -⟩ := fragmentRun_eq hp
  have hready := m.ready_enterFragment p
  have hresolved : (m.enterFragment p).Resolved := by
    constructor
    · exact fun v hv => (hshaped.literal v hv).resolved
    · exact List.forall_mem_cons.2 ⟨hr.self, hr.stack⟩
    · exact hr.scopes
    · exact hr.globals
  exact ⟨⟨hs.nodup, hs.known⟩, hresolved, hready.floor, hready.receiver⟩

/-- **The evaluators agree.** Where a script could be, with different scopes and no value that stands
for a name without one, a fragment means what its statements mean as a block of that script. -/
theorem evalFragment_eq_eval (hs : m.WellScoped) (hr : m.Resolved)
    (h : Tree.ofSource (Source.ofText fragmentName text) = .ok body) :
    match m.evalFragment body,
      (Stmt.block ⟨0, 0⟩ body).eval m.self (m.world.complete .undefined) with
    | .ok _ h', .ok _ w => h'.world m.frame.chain = w
    | .error f h', .error x w => f = .unbound x ∧ ∃ c, h'.world c = w
    | _, _ => False := by
  obtain ⟨p, hp, hpool, -⟩ := exists_fragmentProgram (m := m) h
  have hscript := Stmt.agrees (V := (Source.ofText fragmentName text).vocabulary)
    (fun _ hx => hx) 0 #[] (by simp) (.block ⟨0, 0⟩ body) (m.enterFragment p)
    (Tree.ofSource_within h) (fit_enterFragment hp hs hr) hpool
  have hfragment := fragmentCode_heapAgrees h hpool
  -- both are about the outcome of the same code
  change Agrees _ _ (execute (fragmentCode m.hasGlobalSelf body) (m.enterFragment p))
    ((Stmt.block ⟨0, 0⟩ body).eval m.self (m.world.complete .undefined)) at hscript
  generalize execute (fragmentCode m.hasGlobalSelf body) (m.enterFragment p) = o at hscript hfragment
  generalize m.evalFragment body = r at hfragment ⊢
  generalize (Stmt.block ⟨0, 0⟩ body).eval m.self (m.world.complete .undefined) = r' at hscript ⊢
  cases hfragment with
  | done hh _ hc =>
    subst hh
    cases hscript with
    | done hw _ _ =>
      rw [← hc]
      exact hw
  | @raised m' f h' hh =>
    subst hh
    cases hscript with
    | unbound hw => exact ⟨rfl, m'.frame.chain, hw⟩

end Machine

/-- **An evaluation does what the reference says**, on every machine: whether or not the receiver of
the paused frame is the global object, and whether or not the machine has halted. A text that parses
has its completion value, or the first fault of a name that is not bound or of one that an operator
refuses, and every effect up to there. -/
theorem evaluate_eq_reference (m : Machine) (text : String) :
    ((m.evaluate text).machine, (m.evaluate text).outcome) = m.reference text ∧
      ∀ e, (m.evaluate text).outcome = .error e →
        (∃ error, Tree.ofSource (Source.ofText fragmentName text) = .error error ∧
          e = .misread error) ∨
        (∃ x, e = .evaluation (.unbound x) ∧ e.message = s!"ReferenceError: {x} is not defined") ∨
        ∃ x, e = .evaluation (.unresolvedOperand x) ∧
          e.message = s!"TypeError: cannot operate on unresolved `{x}`" := by
  unfold Machine.reference
  cases h : Tree.ofSource (Source.ofText fragmentName text) with
  | error error =>
    obtain ⟨hmachine, houtcome⟩ := Machine.evaluate_of_misread (m := m) h
    rw [hmachine, houtcome]
    refine ⟨rfl, fun e he => Or.inl ⟨error, rfl, ?_⟩⟩
    cases he
    rfl
  | ok body =>
    have heq := Machine.evaluate_of_body (m := m) h
    refine ⟨heq, fun e he => Or.inr ?_⟩
    have houtcome : (m.settle (m.evalFragment body)).2 = .error e := by rw [← heq, he]
    cases hr : m.evalFragment body with
    | ok _ h' =>
      rw [hr] at houtcome
      cases houtcome
    | error f h' =>
      rw [hr] at houtcome
      cases houtcome
      obtain ⟨x, rfl | rfl⟩ := Machine.fault_of_evalFragment h hr
      · exact Or.inl ⟨x, rfl, rfl⟩
      · exact Or.inr ⟨x, rfl, rfl⟩

end ScriptDebug
