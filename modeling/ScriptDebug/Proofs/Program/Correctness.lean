/-
# The compiler and the machine are right

Executing the code of an expression gives the value that the evaluator gives,
on top of the stack, and changes the world of the machine as the evaluator does;
executing the code of a statement changes the world as the evaluator does and
leaves the stack. Where the evaluator meets a name without a value the code
raises the fault of that name, with the same effects up to there.

The induction is on the tree. It carries that the pool the code was compiled
with is part of the constants of the program, and of the machine that its
visible scopes are different ones, that no value stands for a name without one,
and what its receiver is (`Machine.Fit`); all code preserves the latter.

Key definitions: `Machine.Fit`, `Agrees`, `Machine.RunsAs`.
Key theorems: `Expr.agrees`, `bodyPiece_agrees`, `run_eq_eval`.
-/
import ScriptDebug.Proofs.Meaning
import ScriptDebug.Proofs.Program.Safety

namespace ScriptDebug

/-! ### What all code preserves -/

namespace Machine

theorem sameFrame_execute (m : Machine) (is : List Instruction) :
    m.SameFrame (execute is m).machine :=
  execute_machine (P := m.SameFrame)
    (fun m' i h => h.trans (m'.keeps_perform i).toSameFrame) (fun m' h => h.trans (.advance m'))
    is (.refl m)

/-- A frame that reaches no further down than its floor keeps the stack up to there. -/
theorem SameFrame.floor_le {m m' : Machine} (h : m.SameFrame m') (hf : m.floor ≤ m.height) :
    m'.floor ≤ m'.height := by
  have hlen : (m.stack.drop (m.height - m.floor)).length = m.floor := by
    rw [List.length_drop]
    exact Nat.sub_sub_self hf
  have hb := h.bottom _ (List.drop_suffix _ _) (Nat.le_of_eq hlen)
  rw [h.floor, ← hlen]
  exact hb.length_le

/-- So it keeps its receiver. -/
theorem SameFrame.self_eq {m m' : Machine} (h : m.SameFrame m') (hf : m.floor ≤ m.height) :
    m'.self = m.self := by
  unfold Machine.self receiver?
  rw [h.base]
  cases hb : m.frame.base with
  | none => rfl
  | some i =>
    have hfloor : m.floor = i + 1 := by rw [Machine.floor, hb]; rfl
    have hlen : (m.stack.drop (m.height - m.floor)).length = i + 1 := by
      rw [List.length_drop, ← hfloor]
      exact Nat.sub_sub_self hf
    have hget : ∀ stack, m.stack.drop (m.height - m.floor) <:+ stack →
        stack.reverse[i]? = (m.stack.drop (m.height - m.floor)).reverse[i]? := by
      rintro stack ⟨top, rfl⟩
      rw [List.reverse_append, List.getElem?_append_left]
      rw [List.length_reverse, hlen]
      exact Nat.lt_succ_self i
    have hsuffix := List.drop_suffix (m.height - m.floor) m.stack
    have hsuffix' := h.bottom _ hsuffix (by omega)
    simp only [Option.bind_some, hget _ hsuffix, hget _ hsuffix']

/-- What the induction needs of a machine: `v` is what `this` is compiled to give. -/
structure Fit (m : Machine) (g : Bool) (v : Value) : Prop where
  scopes : m.WellScoped
  resolved : m.Resolved
  floor : m.floor ≤ m.height
  receiver : (if g then .object .global else m.self) = v

theorem Fit.execute {m m' : Machine} {g : Bool} {self : Value} {is : List Instruction}
    (h : m.Fit g self) (he : Machine.execute is m = .done m') : m'.Fit g self ∧ m.SameFrame m' := by
  have hs := wellScoped_execute h.scopes is
  have hr := (resolved_execute h.resolved is).machine
  have hf := m.sameFrame_execute is
  rw [he] at hs hr hf
  exact ⟨⟨hs, hr, hf.floor_le h.floor, hf.self_eq h.floor ▸ h.receiver⟩, hf⟩

end Machine

/-! ### Agreement -/

/-- The outcome of code agrees with the result of an evaluation: the same world, and the stack and
the scopes that were asked for, or the fault of the same name in the same world. -/
inductive Agrees {α : Type} (stack : α → List Value) (chain : Chain) :
    Outcome → EStateM.Result String World α → Prop
  | done {m : Machine} {a : α} {w : World} : m.world = w → m.stack = stack a →
    m.frame.chain = chain → Agrees stack chain (.done m) (.ok a w)
  | unbound {m : Machine} {x : String} {w : World} : m.world = w →
    Agrees stack chain (.raised (.unbound x) m) (.error x w)

/-- Code after code is evaluation after evaluation. -/
theorem Agrees.bind {α β : Type} {stack : α → List Value} {stack' : β → List Value}
    {chain chain' : Chain} {is js : List Instruction} {m : Machine} {w : World} {e : Eval α}
    {f : α → Eval β} (he : Agrees stack chain (Machine.execute is m) (e w))
    (hf : ∀ m' a, Machine.execute is m = .done m' → m'.stack = stack a →
      m'.frame.chain = chain → Agrees stack' chain' (Machine.execute js m') (f a m'.world)) :
    Agrees stack' chain' (Machine.execute (is ++ js) m) ((e >>= f) w) := by
  rw [Machine.execute_append]
  show Agrees stack' chain' _ (EStateM.bind e f w)
  unfold EStateM.bind
  cases ho : Machine.execute is m with
  | done m' =>
    rw [ho] at he
    cases hr : e w with
    | ok a w' =>
      rw [hr] at he
      cases he with
      | done hw hs hc =>
        subst hw
        exact hf m' a ho hs hc
    | error x w' =>
      rw [hr] at he
      cases he
  | raised fault m' =>
    rw [ho] at he
    cases hr : e w with
    | ok a w' =>
      rw [hr] at he
      cases he
    | error x w' =>
      rw [hr] at he
      cases he with
      | unbound hw => exact .unbound hw

/-- One instruction that does what the evaluator does. -/
theorem Agrees.single {α : Type} {stack : α → List Value} {chain : Chain} {i : Instruction}
    {m m' : Machine} {a : α} {w : World} (h : m.perform i = .done m') (hw : m'.world = w)
    (hs : m'.stack = stack a) (hc : m'.frame.chain = chain) :
    Agrees stack chain (Machine.execute [i] m) (.ok a w) := by
  rw [Machine.execute_cons, h]
  exact .done hw hs hc

/-! ### Single instructions -/

namespace Machine

variable {m : Machine} {v : Value} {rest : List Value}

theorem perform_loadConst {i : Nat} (h : m.frame.program.constants[i]? = some v) :
    m.perform (.loadConst i) = .done (m.push v) := by
  simp only [perform, h]

theorem perform_unary (op : UnaryOp) (hs : m.stack = v :: rest) (hf : m.floor ≤ rest.length) :
    m.perform op.instruction = .done ({ m with stack := rest }.push (op.value v)) := by
  cases op <;> exact withTop_of_stack hs hf _

theorem perform_binary (op : BinaryOp) {a b : Value} (hs : m.stack = b :: a :: rest)
    (hf : m.floor ≤ rest.length) (ha : a.Resolved) (hb : b.Resolved) :
    m.perform (.binary op) = .done ({ m with stack := rest }.push (op.value a b)) := by
  have hpop := withTop_of_stack (m := { m with stack := a :: rest }) rfl hf
  simp only [perform]
  rw [withTop_of_stack hs (Nat.le_succ_of_le hf), hpop, op.apply_eq ha hb]

theorem perform_storeName (x : String) (hs : m.stack = v :: rest) :
    m.perform (.storeName x) = .done (m.assign x v) := by
  simp only [perform, hs]

theorem perform_declare (how : Declaration) (x : String) (hs : m.stack = v :: rest)
    (hf : m.floor ≤ rest.length) :
    m.perform (how.instruction x) =
      .done (match how with
        | .lexical => { m with stack := rest }.define x v
        | .globalProperty => { m with stack := rest }.setGlobal x v) := by
  cases how <;> exact withTop_of_stack hs hf _

end Machine

/-! ### Expressions -/

/-- **Expressions.** Their code computes the value that the evaluator computes. -/
theorem Expr.agrees {V : Vocabulary} (hV : ∀ x, V.number x → Number.Unsigned x) {g : Bool}
    {self : Value} (e : Expr) (he : e.Within V) {pool : Array Value}
    (hp : ∀ v ∈ pool, v.IsLiteral) {m : Machine} (hm : m.Fit g self)
    (hc : Extends (e.code g pool).2 m.frame.program.constants) :
    Agrees (· :: m.stack) m.frame.chain (Machine.execute (e.code g pool).1 m)
      (e.eval self m.world) := by
  induction e generalizing pool m with
  | number x =>
    have hx : (Value.number x).IsLiteral := hV x he
    exact .single (Machine.perform_loadConst (hc _ _ (place_spec hx hp).1)) rfl rfl rfl
  | string s =>
    have hs : (Value.string s).IsLiteral := trivial
    exact .single (Machine.perform_loadConst (hc _ _ (place_spec hs hp).1)) rfl rfl rfl
  | bool | null | undefined => exact .single rfl rfl rfl rfl
  | self =>
    have hv : m.perform (if g then .loadGlobalThis else .loadThis) = .done (m.push self) := by
      rw [← hm.receiver]
      cases g <;> rfl
    exact .single hv rfl rfl rfl
  | name x =>
    simp only [code, eval, Eval.read, Machine.execute_cons, Machine.perform, m.lookup?_eq x]
    cases m.world.lookup? x with
    | some v => exact .done rfl rfl rfl
    | none => exact .unbound rfl
  | unary op e ih =>
    rw [code_unary]
    refine (ih he hp hm hc).bind fun m' v ho hs hch => ?_
    have hf : m'.floor ≤ m.stack.length := (hm.execute ho).2.floor ▸ hm.floor
    exact .single (Machine.perform_unary op hs hf) rfl rfl hch
  | binary op l r ihl ihr =>
    rw [code_binary, List.append_assoc]
    have hcl := (extends_code g r (l.code g pool).2).trans hc
    refine (ihl he.1 hp hm hcl).bind fun m₁ a ho₁ hs₁ hch₁ => ?_
    obtain ⟨hm₁, hk₁⟩ := hm.execute ho₁
    have hpl := literal_code g hV l he.1 pool hp
    refine (ihr he.2 hpl hm₁ (hk₁.program ▸ hc)).bind fun m₂ b ho₂ hs₂ hch₂ => ?_
    obtain ⟨hm₂, hk₂⟩ := hm₁.execute ho₂
    rw [hs₁] at hs₂
    have hf : m₂.floor ≤ m.stack.length := (hk₁.trans hk₂).floor ▸ hm.floor
    have hstack := hm₂.resolved.stack
    rw [hs₂, List.forall_mem_cons, List.forall_mem_cons] at hstack
    obtain ⟨hb, ha, -⟩ := hstack
    exact .single (Machine.perform_binary op hs₂ hf ha hb) rfl rfl (hch₂.trans hch₁)
  | assign x e ih =>
    rw [code_assign]
    refine (ih he.2 hp hm hc).bind fun m' v ho hs hch => ?_
    have hw := Machine.world_assign (hm.execute ho).1.scopes x v
    exact .single (Machine.perform_storeName x hs) hw ((m'.stack_assign x v).trans hs)
      ((Machine.sameScopes_assign m' x v).1.trans hch)

/-! ### Statements -/

/-- A declaration without an expression gives its name what `undefined` gives. -/
theorem initValue_eq (self : Value) (init : Option Expr) :
    initValue self init = (init.getD .undefined).eval self := by
  cases init <;> rfl

/-- A block has a scope around it, which it goes back to. -/
theorem Machine.perform_leaveBlock {m : Machine} {i : ScopeId} {c : Chain}
    (hc : m.frame.chain = c.push i) :
    ∃ m', m.leaveBlock? = some m' ∧ m.perform .leaveBlock = .done m' ∧ m'.stack = m.stack ∧
      m'.frame.chain = c := by
  refine ⟨{ m with frame := { m.frame with chain := c } }, ?_, ?_, rfl, rfl⟩
  · simp only [leaveBlock?, hc]
    rfl
  · simp only [perform, leaveBlock?, hc]
    rfl

mutual

/-- **Statements.** Their code changes the world as the evaluator does. -/
theorem Stmt.agrees {V : Vocabulary} (hV : ∀ x, V.number x → Number.Unsigned x) {g : Bool}
    {self : Value} (pc : Nat) (pool : Array Value) (hp : ∀ v ∈ pool, v.IsLiteral) :
    ∀ (s : Stmt) (m : Machine), s.Within V → m.Fit g self →
      Extends (s.piece g pc pool).pool m.frame.program.constants →
      Agrees (fun _ => m.stack) m.frame.chain (Machine.execute (s.piece g pc pool).code m)
        (s.eval self m.world)
  | .empty _, _, _, _, _ => .done rfl rfl rfl
  | .pause _, _, _, _, _ => .single rfl rfl rfl rfl
  | .declare span how x init, m, hs, hm, hc => by
    rw [Stmt.piece_declare, Stmt.eval, initValue_eq]
    refine (Expr.agrees hV _ hs.2 hp hm hc).bind fun m' v ho hst hch => ?_
    obtain ⟨hm', hk⟩ := hm.execute ho
    have hf : m'.floor ≤ m.stack.length := hk.floor ▸ hm.floor
    have hd := Machine.perform_declare how x hst hf
    cases how with
    | lexical =>
      have hw : ({ m' with stack := m.stack }.define x v).world = m'.world.define x v :=
        Machine.world_define ⟨hm'.scopes.nodup, hm'.scopes.known⟩ x v
      exact .single hd hw rfl hch
    | globalProperty => exact .single hd rfl rfl hch
  | .expr span e, m, hs, hm, hc => by
    rw [Stmt.piece_expr, Stmt.eval]
    refine (e.agrees hV hs hp hm hc).bind fun m' v ho hst hch => ?_
    have hf : m'.floor ≤ m.stack.length := (hm.execute ho).2.floor ▸ hm.floor
    exact .single (Machine.withTop_of_stack hst hf _) rfl rfl hch
  | .block span body, m, hs, hm, hc => by
    have henter : Agrees (fun _ : Unit => m.stack) (m.frame.chain.push m.scopes.next)
        (Machine.execute [.enterBlock] m) ((modify World.enter : Eval Unit) m.world) :=
      .single rfl m.world_enterBlock rfl rfl
    rw [Stmt.code_block, ← List.singleton_append, Stmt.eval]
    refine henter.bind fun m₁ _ ho₁ hst₁ hch₁ => ?_
    obtain ⟨hm₁, hk₁⟩ := hm.execute ho₁
    have hbody := bodyPiece_agrees hV (pc + 1) pool hp body m₁ hs hm₁ (hk₁.program ▸ hc)
    refine hbody.bind fun m₂ _ _ hst₂ hch₂ => ?_
    obtain ⟨m₃, hl, hperf, hst₃, hch₃⟩ := Machine.perform_leaveBlock (hch₂.trans hch₁)
    exact .single hperf (Machine.world_leaveBlock hl) (hst₃.trans (hst₂.trans hst₁)) hch₃

theorem bodyPiece_agrees {V : Vocabulary} (hV : ∀ x, V.number x → Number.Unsigned x) {g : Bool}
    {self : Value} (pc : Nat) (pool : Array Value) (hp : ∀ v ∈ pool, v.IsLiteral) :
    ∀ (body : List Stmt) (m : Machine), BodyWithin V body → m.Fit g self →
      Extends (bodyPiece g pc pool body).pool m.frame.program.constants →
      Agrees (fun _ => m.stack) m.frame.chain (Machine.execute (bodyPiece g pc pool body).code m)
        (evalBody self body m.world)
  | [], _, _, _, _ => .done rfl rfl rfl
  | s :: body, m, hs, hm, hc => by
    obtain ⟨hcode, hpool⟩ := bodyPiece_cons g pc pool s body
    rw [hpool] at hc
    have hcs := (bodyPiece_extends g _ _ body).trans hc
    rw [hcode, evalBody]
    refine (s.agrees hV pc pool hp m hs.1 hm hcs).bind fun m₁ _ ho₁ hst₁ hch₁ => ?_
    obtain ⟨hm₁, hk₁⟩ := hm.execute ho₁
    have hlit := s.literal_piece g hV pc pool hp hs.1
    have hbody := bodyPiece_agrees hV _ _ hlit body m₁ hs.2 hm₁ (hk₁.program ▸ hc)
    rw [hst₁, hch₁] at hbody
    exact hbody

end

/-! ### Whole programs -/

/-- The run of a machine ends as an evaluation does that begins in a world without bindings: it is
done where the evaluation is, and else raises the fault of the name that has no value, and the world
at the end is the same. -/
def Machine.RunsAs (m₀ : Machine) (e : Eval Unit) : Prop :=
  match e World.start with
  | .ok () w => ∃ m, m₀.run = .done m ∧ m.world = w
  | .error x w => ∃ m, m₀.run = .raised (.unbound x) m ∧ m.world = w

/-- A machine that is about to run a script and is fit for it runs as the script evaluates. -/
theorem Machine.runsAs_of_fit {m₀ : Machine} {source : Source} {g : Bool} {body : List Stmt}
    {self : Value} (h : Tree.ofSource source = .ok body)
    (hb : m₀.Begins (Program.ofTree source ⟨false, g⟩ body)) (hh : m₀.halted = false)
    (hm : m₀.Fit g self) (hw : m₀.world = World.start) : m₀.RunsAs (evalBody self body) := by
  have hp := Program.shaped_ofSource ⟨false, g⟩ h
  have hc : Extends (bodyPiece g 0 #[] body).pool m₀.frame.program.constants := by
    rw [hb.program, Program.ofTree_constants]
    exact .refl _
  have ha := bodyPiece_agrees (V := source.vocabulary) (fun _ hx => hx) 0 #[] (by simp) body m₀
    (Tree.ofSource_within h) hm hc
  unfold RunsAs
  rw [run_of_begins hb hp hh, ← hw]
  -- the code is that of the statements as they stand, since a script has no block around it
  change Agrees _ _ (execute (bodyPiece g 0 #[] (Mode.unit ⟨false, g⟩ body)).code m₀) _ at ha
  revert ha
  generalize execute (bodyPiece g 0 #[] (Mode.unit ⟨false, g⟩ body)).code m₀ = o
  generalize evalBody self body m₀.world = r
  intro ha
  cases ha with
  | done hw _ _ => exact ⟨_, rfl, hw⟩
  | unbound hw => exact ⟨_, rfl, hw⟩

/-- **A compiled script runs as its tree evaluates**, whether or not `this` is known to be the global
object, and with or without a receiver that stands for something: the run is done or raises the fault
of the same name, and the completion value, the properties of the global object and the bindings of
every visible scope are the same. -/
theorem run_eq_eval {source : Source} {g : Bool} {p : Program}
    (h : Program.ofSource source ⟨false, g⟩ = .ok p) :
    ∃ body, Tree.ofSource source = .ok body ∧
      (Machine.start p).RunsAs (evalBody (.object .global) body) ∧
      ∀ v : Value, v.Resolved →
        (Machine.withReceiver p v).RunsAs (evalBody (if g then .object .global else v) body) := by
  obtain ⟨body, hbody, rfl⟩ := Program.ofSource_eq_ok.1 h
  have hp := Program.shaped_ofSource ⟨false, g⟩ hbody
  refine ⟨body, hbody, ?_, fun v hv => ?_⟩
  · refine Machine.runsAs_of_fit hbody (Machine.begins_start _) rfl
      ⟨Machine.wellScoped_start _, Machine.resolved_start hp, Nat.le_refl _, ?_⟩ rfl
    cases g <;> rfl
  · refine Machine.runsAs_of_fit hbody (Machine.begins_withReceiver _ v) rfl
      ⟨Machine.wellScoped_withReceiver _ v, Machine.resolved_withReceiver hp hv, Nat.le_refl _, ?_⟩
      rfl
    cases g <;> rfl

set_option maxRecDepth 100000 in
/-- A script that reads its receiver, hides a name in a block and ends in the fault of a name. -/
theorem hidden_name_runs :
    let source := Source.ofText "s" "var a = this; let b; { let b = a; a = b; } b = !c;"
    ∃ p, Program.ofSource source ⟨false, false⟩ = .ok p ∧ ∃ body, Tree.ofSource source = .ok body ∧
      (Machine.start p).RunsAs (evalBody (.object .global) body) ∧
      ∀ v : Value, v.Resolved → (Machine.withReceiver p v).RunsAs (evalBody v body) := by
  intro source
  obtain ⟨p, hp⟩ : ∃ p, Program.ofSource source ⟨false, false⟩ = .ok p := ⟨_, by cbv⟩
  exact ⟨p, hp, run_eq_eval hp⟩

end ScriptDebug
