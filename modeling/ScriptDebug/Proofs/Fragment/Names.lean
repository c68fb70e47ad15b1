/-
# A name is seen as it is evaluated

There are two ways to look at a name in a paused frame. Resolving it walks the
scopes of the frame, then asks the receiver, then the global object. To evaluate it
as a fragment is to read, parse, compile and run it inside a scope of its own,
which looks along the scopes and then at the global object. They find the same
value, except where the receiver stands in for a name that no scope binds
(`resolve_agrees_with_evaluate`).

Key definition: `Machine.Unscoped`.
Key theorems: `Grammar.ofSource_name`, `Machine.evaluate_name`,
`Machine.resolve_cases`, `resolve_agrees_with_evaluate`.
-/
import ScriptDebug.Proofs.Fragment.Evaluation
import ScriptDebug.Proofs.Script.Writing
import ScriptDebug.Resolution

namespace ScriptDebug

/-- A word that is not reserved is a fragment, which evaluates the name. -/
theorem Grammar.ofSource_name {x : String} (hx : Token.IsWord x) (hk : Lexeme.keyword? x = none)
    (file : String) :
    ∃ span, Tree.ofSource (Source.ofText file x) = .ok [.expr span (.name x)] := by
  have hunary : Derives .unary 1 [.name x] (.name x) := .primary (.atom (.name x))
  have hderives : Derives .assignment 1 [.name x] (.name x) :=
    .value (.first (hunary.operand_of_unary .equality))
  have hwritable : ∀ l ∈ [Lexeme.name x], l.Writable := List.forall_mem_singleton.2 ⟨hx, hk⟩
  have hsource := ofSource_write .spaced file hderives (by decide) hwritable
  have htext : String.ofList (Style.spaced.write 0 [.name x]) = x := String.ofList_toList
  rwa [htext] at hsource

/-- A scope that binds nothing shadows nothing. -/
theorem Scopes.find?_push_grow (s : Scopes) (c : Chain) (x : String) :
    s.grow.find? (c.push s.next) x = s.find? c x := by
  have hread : s.grow.read = s.read := funext s.read_grow
  have hnew : (s.read s.next).get? x = none := by
    simp [Scopes.read, Scopes.next, Bindings.empty, Bindings.get?]
  unfold find?
  rw [hread]
  simp only [Chain.push, Chain.ids, List.findSome?_cons, hnew]

namespace Machine

/-- No scope that is visible binds the name. -/
def Unscoped (m : Machine) (x : String) : Prop :=
  ∀ i ∈ m.frame.chain.ids, (m.scopes.read i).get? x = none

/-! ### Evaluating -/

/-- The scope of the fragment hides no name. -/
theorem lookup?_fragmentHeap (m : Machine) (x : String) :
    m.fragmentHeap.lookup? m.fragmentChain x = m.lookup? x := by
  unfold Heap.lookup? Machine.lookup? fragmentHeap fragmentChain
  rw [Scopes.find?_push_grow]

theorem read_fragmentHeap (m : Machine) (x : String) :
    HeapEval.read m.fragmentChain x m.fragmentHeap =
      match m.lookup? x with
      | some v => .ok v m.fragmentHeap
      | none => .error (.unbound x) m.fragmentHeap := by
  cases hv : m.lookup? x with
  | some v => simp only [HeapEval.read, lookup?_fragmentHeap, hv]
  | none => simp only [HeapEval.read, lookup?_fragmentHeap, hv]

/-- The evaluation of a name is its lookup in the paused frame. -/
theorem evalFragment_name (m : Machine) (x : String) (span : Span) :
    m.evalFragment [.expr span (.name x)] =
      match m.lookup? x with
      | some v => .ok () (m.fragmentHeap.complete v)
      | none => .error (.unbound x) m.fragmentHeap := by
  have hread := m.read_fragmentHeap x
  simp only [evalFragment, evalBodyIn, Stmt.evalIn, Expr.evalIn, bind, EStateM.bind, hread]
  cases m.lookup? x with
  | some v => rfl
  | none => rfl

/-- To evaluate a name is to look it up, and changes no binding. -/
theorem evaluate_name (m : Machine) {x : String} (hx : Token.IsWord x)
    (hk : Lexeme.keyword? x = none) :
    (m.evaluate x).machine = { m with scopes := m.scopes.grow } ∧
      (m.evaluate x).outcome =
        match m.lookup? x with
        | some v => .ok v
        | none => .error (.evaluation (.unbound x)) := by
  obtain ⟨span, hsource⟩ := Grammar.ofSource_name hx hk fragmentName
  have heq := m.evaluate_of_body hsource
  rw [evalFragment_name] at heq
  have hmachine := congrArg Prod.fst heq
  have houtcome := congrArg Prod.snd heq
  cases hv : m.lookup? x with
  | some v =>
    rw [hv] at hmachine houtcome
    exact ⟨hmachine, houtcome⟩
  | none =>
    rw [hv] at hmachine houtcome
    exact ⟨hmachine, houtcome⟩

/-! ### Resolving -/

theorem knownReceiver?_eq_some {m : Machine} {v : Value} :
    m.knownReceiver? = some v ↔ m.receiver? = some v ∧ v ≠ .undefined := by
  have hdefined : v.isUndefined = false ↔ v ≠ .undefined := by cases v <;> simp [Value.isUndefined]
  unfold knownReceiver?
  rw [Option.filter_eq_some_iff, Bool.not_eq_true', hdefined]

theorem unscoped_iff {m : Machine} {x : String} :
    m.Unscoped x ↔ m.scopes.find? m.frame.chain x = none := by
  unfold Unscoped Scopes.find?
  exact List.findSome?_eq_none_iff.symm

theorem lookup?_of_unscoped {m : Machine} {x : String} (h : m.Unscoped x) :
    m.lookup? x = m.globals.get? x := by
  rw [lookup?, unscoped_iff.1 h, Option.none_or]

theorem lookup?_of_find? {m : Machine} {x : String} {v : Value}
    (h : m.scopes.find? m.frame.chain x = some v) : m.lookup? x = some v := by
  rw [lookup?, h, Option.some_or]

/-- The tiers in their order, each with what the ones before it did not find. -/
theorem resolve_cases (m : Machine) (x : String) :
    (∃ v, m.scopes.find? m.frame.chain x = some v ∧ m.resolve x = ⟨v, .lexical, none⟩) ∨
      m.Unscoped x ∧
        ((∃ v, m.knownReceiver? = some v ∧
            m.resolve x = ⟨v, .receiver, some (.receiverFallback x)⟩) ∨
          m.knownReceiver? = none ∧
            ((∃ v, m.globals.get? x = some v ∧ m.resolve x = ⟨v, .globalProperty, none⟩) ∨
              m.globals.get? x = none ∧
                m.resolve x = ⟨.unresolved x, .unresolved, some (.unresolved x)⟩)) := by
  unfold resolve
  cases hf : m.scopes.find? m.frame.chain x with
  | some v => exact Or.inl ⟨v, rfl, rfl⟩
  | none =>
    refine Or.inr ⟨unscoped_iff.2 hf, ?_⟩
    cases hr : m.knownReceiver? with
    | some v => exact Or.inl ⟨v, rfl, rfl⟩
    | none =>
      refine Or.inr ⟨rfl, ?_⟩
      cases hg : m.globals.get? x with
      | some v => exact Or.inl ⟨v, rfl, rfl⟩
      | none => exact Or.inr ⟨rfl, rfl⟩

/-- The receiver is what is shown where no scope binds the name and the frame has a receiver that is
not undefined. -/
theorem tier_eq_receiver_iff {m : Machine} {x : String} :
    (m.resolve x).tier = .receiver ↔
      m.Unscoped x ∧ ∃ v, m.receiver? = some v ∧ v ≠ .undefined := by
  rcases m.resolve_cases x with ⟨v, hf, he⟩ | ⟨hu, ⟨v, hr, he⟩ | ⟨hr, hg⟩⟩
  · have hscoped : ¬m.Unscoped x := by simp [unscoped_iff, hf]
    simp [he, hscoped]
  · have hreceiver : ∃ v, m.receiver? = some v ∧ v ≠ .undefined :=
      ⟨v, knownReceiver?_eq_some.1 hr⟩
    simp [he, hu, hreceiver]
  · have hreceiver : ¬∃ v, m.receiver? = some v ∧ v ≠ .undefined := by
      rintro ⟨v, hv⟩
      rw [knownReceiver?_eq_some.2 hv] at hr
      cases hr
    have htier : (m.resolve x).tier ≠ .receiver := by
      rcases hg with ⟨v, -, he⟩ | ⟨-, he⟩ <;> simp [he]
    exact ⟨fun h => absurd h htier, fun h => absurd h.2 hreceiver⟩

end Machine

/-- **A name is resolved as it is evaluated.** What resolving a name finds in a scope or among the
global properties is the value of the fragment that is this name, and where it finds nothing the
fragment ends in the fault of the name. Where the receiver stands in, no scope binds the name, and
the fragment goes on to the global object. Neither changes a binding or a property. -/
theorem resolve_agrees_with_evaluate (m : Machine) {x : String} (hx : Token.IsWord x)
    (hk : Lexeme.keyword? x = none) :
    (match (m.resolve x).tier with
      | .lexical | .globalProperty => (m.evaluate x).outcome = .ok (m.resolve x).value
      | .unresolved => (m.evaluate x).outcome = .error (.evaluation (.unbound x))
      | .receiver => m.Unscoped x ∧ (m.evaluate x).outcome =
          match m.globals.get? x with
          | some v => .ok v
          | none => .error (.evaluation (.unbound x))) ∧
      (DebugError.evaluation (.unbound x)).message = s!"ReferenceError: {x} is not defined" ∧
      ((m.resolve x).tier = .receiver ↔
        m.Unscoped x ∧ ∃ v, m.receiver? = some v ∧ v ≠ .undefined) ∧
      (∀ i, (m.evaluate x).machine.scopes.read i = m.scopes.read i) ∧
      (m.evaluate x).machine.globals = m.globals := by
  obtain ⟨hmachine, houtcome⟩ := m.evaluate_name hx hk
  refine ⟨?_, rfl, Machine.tier_eq_receiver_iff, fun i => ?_, ?_⟩
  · rcases m.resolve_cases x with ⟨v, hf, he⟩ | ⟨hu, ⟨v, -, he⟩ | ⟨-, ⟨v, hg, he⟩ | ⟨hg, he⟩⟩⟩
    · rw [he, houtcome, Machine.lookup?_of_find? hf]
    · rw [he, houtcome, Machine.lookup?_of_unscoped hu]
      exact ⟨hu, rfl⟩
    · rw [he, houtcome, Machine.lookup?_of_unscoped hu, hg]
    · rw [he, houtcome, Machine.lookup?_of_unscoped hu, hg]
  · rw [hmachine]
    exact Scopes.read_grow m.scopes i
  · rw [hmachine]

/-- The receiver hides a global property from the one who resolves its name. -/
theorem receiver_hides_property :
    let p := Program.ofTree (Source.ofText "s" "") .script []
    let m := (Machine.withReceiver p (.string "r")).setGlobal "a" .null
    Token.IsWord "a" ∧ Lexeme.keyword? "a" = none ∧
      m.resolve "a" = ⟨.string "r", .receiver, some (.receiverFallback "a")⟩ ∧
      (m.evaluate "a").outcome = .ok .null := by
  intro p m
  have hx : Token.IsWord "a" := Token.isWord_of_all rfl rfl rfl
  have hk : Lexeme.keyword? "a" = none := rfl
  have hresolve : m.resolve "a" = ⟨.string "r", .receiver, some (.receiverFallback "a")⟩ := rfl
  have hagrees := (resolve_agrees_with_evaluate m hx hk).1
  rw [hresolve] at hagrees
  exact ⟨hx, hk, hresolve, hagrees.2⟩

end ScriptDebug
