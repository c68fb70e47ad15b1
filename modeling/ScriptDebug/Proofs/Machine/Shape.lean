/-
# The shape of the stack and of the scope chain

How many values an instruction takes and leaves, and whether it opens or closes
a scope, can be read off the instruction. `Shape.after?` does so, and has no
answer where the instruction would break a rule of the machine; `Shape.through?`
does it for a list of instructions.

Code that has a shape breaks no rule: its instructions find the values and the
scopes that they need (`perform_over`, `execute_over`), and a fault is one of a
name. Where it assigns nothing and declares no global property either, it leaves
alone the globals and all scopes but its own (`execute_quiet`).

Key definitions: `Shape`, `Shape.after?`, `Shape.through?`, `Instruction.Within`,
`Outcome.Unbroken`, `Machine.Over`.
Key theorems: `Machine.perform_over`, `Machine.execute_over`, `Machine.execute_quiet`.
-/
import ScriptDebug.Proofs.Machine.Execution
import ScriptDebug.Proofs.Script.Vocabulary

namespace ScriptDebug

/-- How many values and how many scopes there are on top of those that were there first. -/
structure Shape where
  height : Nat
  depth : Nat
  deriving DecidableEq, Repr

namespace Shape

/-- The shape after an instruction, in a program with `n` constants. A halt has none: code goes on
behind every instruction that has one. -/
def after? (n : Nat) : Instruction → Shape → Option Shape
  | .loadConst i, ⟨h, d⟩ => if i < n then some ⟨h + 1, d⟩ else none
  | .loadUndefined, ⟨h, d⟩ | .loadNull, ⟨h, d⟩ | .loadBool _, ⟨h, d⟩ | .loadName _, ⟨h, d⟩
  | .loadThis, ⟨h, d⟩ | .loadGlobalThis, ⟨h, d⟩ => some ⟨h + 1, d⟩
  | .storeName _, ⟨h + 1, d⟩ | .neg, ⟨h + 1, d⟩ | .not, ⟨h + 1, d⟩ => some ⟨h + 1, d⟩
  | .defineLet _, ⟨h + 1, d⟩ | .defineVar _, ⟨h + 1, d⟩ | .pop, ⟨h + 1, d⟩
  | .saveResult, ⟨h + 1, d⟩ => some ⟨h, d⟩
  | .binary _, ⟨h + 2, d⟩ => some ⟨h + 1, d⟩
  | .enterBlock, ⟨h, d⟩ => some ⟨h, d + 1⟩
  | .leaveBlock, ⟨h, d + 1⟩ => some ⟨h, d⟩
  | .pause, s => some s
  | _, _ => none

/-- The shape after instructions one after the other. -/
def through? (n : Nat) : List Instruction → Shape → Option Shape
  | [], s => some s
  | i :: is, s => (s.after? n i).bind (through? n is)

theorem through?_append (n : Nat) (is js : List Instruction) (s : Shape) :
    through? n (is ++ js) s = (through? n is s).bind (through? n js) := by
  induction is generalizing s with
  | nil => rfl
  | cons i is ih =>
    simp only [List.cons_append, through?, Option.bind_assoc]
    congr 1
    funext t
    exact ih t

/-- Code that goes on with a shape has one up to there. -/
theorem through?_prefix {n : Nat} {is js : List Instruction} {s t : Shape}
    (h : through? n (is ++ js) s = some t) : ∃ u, through? n is s = some u := by
  rw [through?_append] at h
  obtain ⟨u, hu, -⟩ := Option.bind_eq_some_iff.1 h
  exact ⟨u, hu⟩

theorem halt_not_mem {n : Nat} {is : List Instruction} {s t : Shape}
    (h : through? n is s = some t) : .halt ∉ is := by
  induction is generalizing s with
  | nil => exact List.not_mem_nil
  | cons i is ih =>
    obtain ⟨u, hi, hu⟩ := Option.bind_eq_some_iff.1 h
    intro hmem
    rcases List.mem_cons.1 hmem with rfl | hmem
    · exact nomatch hi
    · exact ih hu hmem

end Shape

theorem Chain.eq_of_ids {c c' : Chain} (h : c.ids = c'.ids) : c = c' := by
  obtain ⟨i, is⟩ := c
  obtain ⟨j, js⟩ := c'
  obtain ⟨rfl, rfl⟩ := List.cons.inj h
  rfl

/-- The names that an instruction uses are in the vocabulary. -/
def Instruction.Within (V : Vocabulary) : Instruction → Prop
  | .loadName x => V.reads x
  | .storeName x => V.assigns x
  | .defineVar x => V.globals x
  | _ => True

/-- The outcome of code that breaks no rule: a state of some kind, or the fault of a name, which is
among those read if it is unbound. -/
inductive Outcome.Unbroken (reads : String → Prop) (Q : Machine → Prop) : Outcome → Prop
  | done {m : Machine} : Q m → Unbroken reads Q (.done m)
  | unbound {m : Machine} (x : String) : reads x → Unbroken reads Q (.raised (.unbound x) m)
  | unresolvedOperand {m : Machine} (x : String) :
    Unbroken reads Q (.raised (.unresolvedOperand x) m)

theorem Outcome.Unbroken.andThen {reads : String → Prop} {Q R : Machine → Prop} {o : Outcome}
    {k : Machine → Outcome} (ho : o.Unbroken reads Q) (hk : ∀ m, Q m → (k m).Unbroken reads R) :
    (o.andThen k).Unbroken reads R := by
  cases ho with
  | done hm => exact hk _ hm
  | unbound x hx => exact .unbound x hx
  | unresolvedOperand x => exact .unresolvedOperand x

theorem Outcome.Unbroken.of_done {reads : String → Prop} {Q : Machine → Prop} {m : Machine}
    (h : (Outcome.done m).Unbroken reads Q) : Q m := by
  cases h with
  | done hm => exact hm

namespace Machine

/-- The machine `m` goes on from `m₀` and has a shape on top of what was there: its operands are
above the stack, its scopes are inside the chain, and they are new ones. -/
structure Over (m₀ : Machine) (s : Shape) (m : Machine) : Prop where
  frame : m₀.SameFrame m
  stack : ∃ operands, m.stack = operands ++ m₀.stack ∧ operands.length = s.height
  chain : ∃ opened, m.frame.chain.ids = opened ++ m₀.frame.chain.ids ∧ opened.length = s.depth ∧
    ∀ i ∈ opened, m₀.scopes.next ≤ i
  next : m₀.scopes.next ≤ m.scopes.next

namespace Over

variable {m₀ m : Machine} {h d : Nat}

theorem refl (m : Machine) : m.Over ⟨0, 0⟩ m :=
  ⟨.refl m, ⟨[], rfl, rfl⟩, ⟨[], rfl, rfl, fun _ h => nomatch h⟩, Nat.le_refl _⟩

theorem advance {s : Shape} (ho : m₀.Over s m) : m₀.Over s m.advance :=
  ⟨ho.frame.trans (.advance m), ho.stack, ho.chain, ho.next⟩

/-- Without operands the stack is as it was. -/
theorem stack_eq (ho : m₀.Over ⟨0, d⟩ m) : m.stack = m₀.stack := by
  obtain ⟨operands, hs, hl⟩ := ho.stack
  rw [hs, List.eq_nil_of_length_eq_zero hl, List.nil_append]

/-- Without scopes of its own the chain is as it was. -/
theorem chain_eq (ho : m₀.Over ⟨h, 0⟩ m) : m.frame.chain = m₀.frame.chain := by
  obtain ⟨opened, hc, hl, -⟩ := ho.chain
  rw [List.eq_nil_of_length_eq_zero hl, List.nil_append] at hc
  exact Chain.eq_of_ids hc

/-- There is an operand on top. -/
theorem top (ho : m₀.Over ⟨h + 1, d⟩ m) : ∃ v rest, m.stack = v :: rest ∧
    rest.length = h + m₀.height ∧ ∃ operands, rest = operands ++ m₀.stack := by
  obtain ⟨operands, hs, hl⟩ := ho.stack
  obtain ⟨v, operands, rfl⟩ := List.exists_cons_of_length_eq_add_one hl
  refine ⟨v, operands ++ m₀.stack, hs, ?_, operands, rfl⟩
  rw [List.length_append, Nat.succ.inj hl, height]

/-- It can be taken off. -/
theorem withTop (hf : m₀.floor ≤ m₀.height) (ho : m₀.Over ⟨h + 1, d⟩ m)
    {reads : String → Prop} {Q : Machine → Prop} {k : Value → Machine → Outcome}
    (hk : ∀ v m', m₀.Over ⟨h, d⟩ m' → (k v m').Unbroken reads Q) :
    (m.withTop k).Unbroken reads Q := by
  obtain ⟨v, rest, hs, hl, operands, rfl⟩ := ho.top
  have hfloor : m.floor ≤ (operands ++ m₀.stack).length := by
    rw [ho.frame.floor, hl]
    omega
  rw [withTop_of_stack hs hfloor]
  refine hk v _ ⟨ho.frame.trans (keeps_drop hs hfloor).toSameFrame, ⟨operands, rfl, ?_⟩,
    ho.chain, ho.next⟩
  rw [List.length_append] at hl
  exact Nat.add_right_cancel hl

theorem push (ho : m₀.Over ⟨h, d⟩ m) (v : Value) : m₀.Over ⟨h + 1, d⟩ (m.push v) := by
  obtain ⟨operands, hs, hl⟩ := ho.stack
  refine ⟨ho.frame.trans (keeps_push m v).toSameFrame, ⟨v :: operands, ?_, ?_⟩, ho.chain, ho.next⟩
  · rw [Machine.push, hs, List.cons_append]
  · rw [List.length_cons, hl]

/-- The scopes may hold other values. -/
theorem of_memory {s : Shape} (ho : m₀.Over s m) {m' : Machine} (hk : m.Keeps m')
    (hs : m'.stack = m.stack) (hc : m'.frame.chain = m.frame.chain)
    (hn : m'.scopes.next = m.scopes.next) : m₀.Over s m' :=
  ⟨ho.frame.trans hk.toSameFrame, hs ▸ ho.stack, hc ▸ ho.chain, hn ▸ ho.next⟩

theorem define {s : Shape} (ho : m₀.Over s m) (x : String) (v : Value) :
    m₀.Over s (m.define x v) :=
  ho.of_memory (.of_stack rfl rfl rfl rfl rfl rfl) rfl rfl (Scopes.next_define _ _ _ _)

theorem setGlobal {s : Shape} (ho : m₀.Over s m) (x : String) (v : Value) :
    m₀.Over s (m.setGlobal x v) :=
  ho.of_memory (.of_stack rfl rfl rfl rfl rfl rfl) rfl rfl rfl

theorem assign {s : Shape} (ho : m₀.Over s m) (x : String) (v : Value) :
    m₀.Over s (m.assign x v) := by
  unfold Machine.assign
  split
  · exact ho.of_memory (.of_stack rfl rfl rfl rfl rfl rfl) rfl rfl (Scopes.next_define _ _ _ _)
  · exact ho.setGlobal x v

theorem enterBlock (ho : m₀.Over ⟨h, d⟩ m) : m₀.Over ⟨h, d + 1⟩ m.enterBlock := by
  obtain ⟨opened, hc, hl, hnew⟩ := ho.chain
  refine ⟨ho.frame.trans ⟨rfl, rfl, rfl, rfl, fun _ hb _ => hb⟩, ho.stack,
    ⟨m.scopes.next :: opened, ?_, ?_, ?_⟩, ?_⟩
  · exact congrArg (m.scopes.next :: ·) hc
  · exact congrArg (· + 1) hl
  · intro i hi
    rcases List.mem_cons.1 hi with rfl | hi
    · exact ho.next
    · exact hnew i hi
  · rw [next_enterBlock]
    exact Nat.le_succ_of_le ho.next

/-- An opened scope can be left. -/
theorem leaveBlock (ho : m₀.Over ⟨h, d + 1⟩ m) :
    ∃ m', m.leaveBlock? = some m' ∧ m₀.Over ⟨h, d⟩ m' := by
  obtain ⟨opened, hc, hl, hnew⟩ := ho.chain
  obtain ⟨o, opened, rfl⟩ := List.exists_cons_of_length_eq_add_one hl
  have houter : m.frame.chain.outer = opened ++ m₀.frame.chain.ids := (List.cons.inj hc).2
  cases ho' : opened ++ m₀.frame.chain.ids with
  | nil => simp [Chain.ids] at ho'
  | cons i is =>
    refine ⟨{ m with frame := { m.frame with chain := ⟨i, is⟩ } }, ?_, ?_⟩
    · simp only [leaveBlock?, Chain.around?, houter, ho', Option.map_some]
    · exact ⟨ho.frame.trans ⟨rfl, rfl, rfl, rfl, fun _ hb _ => hb⟩, ho.stack,
        ⟨opened, ho'.symm, Nat.succ.inj hl, fun j hj => hnew j (List.mem_cons_of_mem _ hj)⟩, ho.next⟩

end Over

/-- **One instruction.** An instruction that has a shape breaks no rule. -/
theorem perform_over {V : Vocabulary} {m₀ m : Machine} {s t : Shape} {i : Instruction}
    (hf : m₀.floor ≤ m₀.height) (hi : i.Within V) (ho : m₀.Over s m)
    (ht : s.after? m₀.frame.program.constants.size i = some t) :
    (m.perform i).Unbroken V.reads (m₀.Over t) := by
  obtain ⟨h, d⟩ := s
  cases i with
  | loadConst j =>
    simp only [Shape.after?] at ht
    split at ht
    · rename_i hj
      cases ht
      simp only [perform, ho.frame.program, Array.getElem?_eq_getElem hj]
      exact .done (ho.push _)
    · cases ht
  | loadUndefined | loadNull | loadBool | loadThis | loadGlobalThis =>
    cases ht
    exact .done (ho.push _)
  | loadName x =>
    cases ht
    simp only [perform]
    cases m.lookup? x with
    | some v => exact .done (ho.push v)
    | none => exact .unbound x hi
  | storeName x =>
    obtain _ | h := h <;> cases ht
    obtain ⟨v, rest, hs, -⟩ := ho.top
    simp only [perform, hs]
    exact .done (ho.assign x v)
  | defineLet x =>
    obtain _ | h := h <;> cases ht
    exact ho.withTop hf fun v m hm => .done (hm.define x v)
  | defineVar x =>
    obtain _ | h := h <;> cases ht
    exact ho.withTop hf fun v m hm => .done (hm.setGlobal x v)
  | neg | not =>
    obtain _ | h := h <;> cases ht
    exact ho.withTop hf fun v m hm => .done (hm.push _)
  | binary op =>
    obtain _ | _ | h := h <;> cases ht
    refine ho.withTop hf fun b m hm => hm.withTop hf fun a m hm => ?_
    cases hv : op.apply a b with
    | ok v => exact .done (hm.push v)
    | error fault =>
      obtain ⟨x, rfl⟩ := BinaryOp.apply_error hv
      exact .unresolvedOperand x
  | pop =>
    obtain _ | h := h <;> cases ht
    exact ho.withTop hf fun _ m hm => .done hm
  | saveResult =>
    obtain _ | h := h <;> cases ht
    exact ho.withTop hf fun v m hm =>
      .done (hm.of_memory (.of_stack rfl rfl rfl rfl rfl rfl) rfl rfl rfl)
  | enterBlock =>
    cases ht
    exact .done ho.enterBlock
  | leaveBlock =>
    obtain _ | d := d <;> cases ht
    obtain ⟨m', e, hm⟩ := ho.leaveBlock
    simp only [perform, e]
    exact .done hm
  | pause =>
    cases ht
    exact .done ho
  | halt => cases ht

/-- **Code with a shape.** It breaks no rule and ends in its shape. -/
theorem execute_over {V : Vocabulary} {m₀ m : Machine} {s t : Shape} {is : List Instruction}
    (hf : m₀.floor ≤ m₀.height) (hi : ∀ i ∈ is, i.Within V) (ho : m₀.Over s m)
    (ht : Shape.through? m₀.frame.program.constants.size is s = some t) :
    (execute is m).Unbroken V.reads (m₀.Over t) := by
  induction is generalizing s m with
  | nil =>
    cases ht
    exact .done ho
  | cons i is ih =>
    obtain ⟨u, hu, ht⟩ := Option.bind_eq_some_iff.1 ht
    refine (perform_over hf (hi i List.mem_cons_self) ho hu).andThen fun m' hm => ?_
    exact ih (fun j hj => hi j (List.mem_cons_of_mem _ hj)) hm.advance ht

/-! ### Code that changes nothing outside -/

/-- The globals are as they were, and so are certain scopes. -/
structure Spares (p : ScopeId → Prop) (m m' : Machine) : Prop where
  globals : m'.globals = m.globals
  scopes : ∀ i, p i → m'.scopes.read i = m.scopes.read i

namespace Spares

variable {p q : ScopeId → Prop} {a b c : Machine}

theorem of_eq (hg : b.globals = a.globals) (hs : b.scopes = a.scopes) : a.Spares p b :=
  ⟨hg, fun _ _ => hs ▸ rfl⟩

theorem trans (h : a.Spares p b) (h' : b.Spares p c) : a.Spares p c :=
  ⟨h'.globals.trans h.globals, fun i hi => (h'.scopes i hi).trans (h.scopes i hi)⟩

theorem mono (h : a.Spares p b) (hq : ∀ i, q i → p i) : a.Spares q b :=
  ⟨h.globals, fun i hi => h.scopes i (hq i hi)⟩

end Spares

/-- A quiet instruction touches no scope but the innermost. -/
theorem perform_quiet (m : Machine) {i : Instruction} (hi : i.Within .quiet) :
    m.Spares (· ≠ m.frame.chain.inner) (m.perform i).machine := by
  cases i with
  | loadConst | loadName => simp only [perform]; split <;> exact .of_eq rfl rfl
  | loadUndefined | loadNull | loadBool | loadThis | loadGlobalThis | pause | halt =>
    exact .of_eq rfl rfl
  | storeName | defineVar => exact hi.elim
  | defineLet x =>
    exact withTop_machine (.of_eq rfl rfl) fun v rest _ _ =>
      ⟨rfl, fun i hi => Scopes.read_define_ne (Ne.symm hi) m.scopes x v⟩
  | neg | not | pop | saveResult =>
    exact withTop_machine (.of_eq rfl rfl) fun _ _ _ _ => .of_eq rfl rfl
  | binary op =>
    refine withTop_machine (.of_eq rfl rfl) fun b rest _ _ => ?_
    refine withTop_machine (.of_eq rfl rfl) fun a rest _ _ => ?_
    cases op.apply a b <;> exact .of_eq rfl rfl
  | enterBlock => exact ⟨rfl, fun i _ => Scopes.read_grow _ _⟩
  | leaveBlock =>
    simp only [perform, leaveBlock?]
    cases m.frame.chain.around? <;> exact .of_eq rfl rfl

/-- The innermost scope is among the new ones if it was at first. -/
theorem Over.inner {m₀ m : Machine} {s : Shape} {n : ScopeId} (ho : m₀.Over s m)
    (hn : n ≤ m₀.scopes.next) (hi : n ≤ m₀.frame.chain.inner) : n ≤ m.frame.chain.inner := by
  obtain ⟨opened, hc, -, hnew⟩ := ho.chain
  cases opened with
  | nil => exact (List.cons.inj hc).1 ▸ hi
  | cons i opened =>
    rw [(List.cons.inj hc).1]
    exact Nat.le_trans hn (hnew i List.mem_cons_self)

/-- **Quiet code.** Where it begins in a new scope it leaves alone what was there before. -/
theorem execute_quiet {m₀ m : Machine} {s t : Shape} {is : List Instruction} {n : ScopeId}
    (hf : m₀.floor ≤ m₀.height) (hn : n ≤ m₀.scopes.next) (hin : n ≤ m₀.frame.chain.inner)
    (hi : ∀ i ∈ is, i.Within .quiet) (ho : m₀.Over s m)
    (ht : Shape.through? m₀.frame.program.constants.size is s = some t) :
    m.Spares (· < n) (execute is m).machine := by
  induction is generalizing s m with
  | nil => exact .of_eq rfl rfl
  | cons i is ih =>
    obtain ⟨u, hu, ht⟩ := Option.bind_eq_some_iff.1 ht
    have hq : m.Spares (· < n) (m.perform i).machine :=
      (m.perform_quiet (hi i List.mem_cons_self)).mono fun j hj e =>
        Nat.not_lt_of_le (ho.inner hn hin) (e ▸ hj)
    have hm := perform_over hf (hi i List.mem_cons_self) ho hu
    refine Outcome.machine_andThen hq fun m' he hq => ?_
    rw [he] at hm
    have ha : m'.Spares (· < n) m'.advance := .of_eq rfl rfl
    have hrest := ih (fun j hj => hi j (List.mem_cons_of_mem _ hj)) hm.of_done.advance ht
    exact (hq.trans ha).trans hrest

end Machine
end ScriptDebug
