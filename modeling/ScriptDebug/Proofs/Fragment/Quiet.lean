/-
# Fragments that only look

A fragment without a `var` and without an assignment changes nothing that the
paused program could notice: its own declarations go into the scope of its own
or into scopes inside that one, and these are gone when it ends, however it
ends (`Machine.evaluate_alike`).

Key definitions: `QuietText`.
Key theorems: `Machine.spares_fragmentRun`, `Machine.evaluate_alike`.
-/
import ScriptDebug.Proofs.Machine.Likeness
import ScriptDebug.Proofs.Program.Safety

namespace ScriptDebug

/-- The fragment that a text is, if it is one, declares no global property and assigns nothing. -/
def QuietText (text : String) : Prop :=
  ∀ body, Tree.ofSource (Source.ofText fragmentName text) = .ok body → BodyWithin .quiet body

namespace Machine

theorem Spares.andThen {p : ScopeId → Prop} {m : Machine} {o : Outcome} {k : Machine → Outcome}
    (h : m.Spares p o.machine) (hk : ∀ m', Spares p m' (k m').machine) :
    m.Spares p (o.andThen k).machine :=
  Outcome.machine_andThen h fun m' _ hm => hm.trans (hk m')

/-- Going back to the scope around changes no scope. -/
theorem spares_leaveBlock {p : ScopeId → Prop} (m : Machine) :
    m.Spares p (execute [.leaveBlock] m).machine := by
  rw [execute_cons]
  refine Spares.andThen ?_ fun m' => .of_eq rfl rfl
  simp only [perform, leaveBlock?]
  cases m.frame.chain.around? <;> exact .of_eq rfl rfl

theorem next_le_fragmentRun {m : Machine} {text : String} {p : Program}
    (h : m.fragmentProgram text = .ok p) :
    m.scopes.next ≤ (m.fragmentRun p).machine.scopes.next := by
  obtain ⟨body, -, -, -, hrun⟩ := fragmentRun_eq h
  have hn := (m.enterFragment p).next_le_execute (fragmentCode m.hasGlobalSelf body)
  rw [hrun]
  exact Outcome.machine_andThen (P := fun m' => m.scopes.next ≤ m'.scopes.next) hn
    fun _ _ hn' => hn'

/-- A fragment leaves alone the globals and all scopes that were there before. -/
theorem spares_fragmentRun {m : Machine} {text : String} {p : Program} (hq : QuietText text)
    (h : m.fragmentProgram text = .ok p) :
    m.Spares (· < m.scopes.next) (m.fragmentRun p).machine := by
  obtain ⟨body, hbody, hconst, -, hrun⟩ := fragmentRun_eq h
  -- from inside its block on the fragment works in new scopes only
  let inside := (m.enterFragment p).enterBlock.advance
  have henter : m.Spares (· < m.scopes.next) inside := ⟨rfl, fun i _ => Scopes.read_grow _ _⟩
  have hnext : inside.scopes.next = m.scopes.next + 1 := next_enterBlock _
  have hn : m.scopes.next ≤ inside.scopes.next := Nat.le_of_lt (Nat.lt_of_succ_le hnext.ge)
  have hthrough : Shape.through? p.constants.size (bodyPiece m.hasGlobalSelf 1 #[] body).code
      ⟨0, 0⟩ = some ⟨0, 0⟩ :=
    bodyPiece_through _ 1 #[] 0 0 body (Nat.le_of_eq (congrArg Array.size hconst.symm))
  have hfloor : inside.floor ≤ inside.height := Nat.le_refl _
  have hinside := execute_quiet hfloor hn (Nat.le_refl _)
    (bodyPiece_within _ 1 #[] body (hq body hbody)) (.refl inside) hthrough
  have hcode : execute (fragmentCode m.hasGlobalSelf body) (m.enterFragment p) =
      (execute (bodyPiece m.hasGlobalSelf 1 #[] body).code inside).andThen
        (execute [.leaveBlock]) := execute_append _ _ inside
  rw [hrun, hcode]
  refine Spares.andThen ?_ fun m' => .of_eq rfl rfl
  exact henter.trans (hinside.andThen spares_leaveBlock)

/-- **Looking changes nothing.** After a fragment that declares no global property and assigns
nothing the machine is like the paused one. -/
theorem evaluate_alike {m : Machine} {text : String} (hq : QuietText text) (hm : m.WellScoped) :
    m.Alike (m.evaluate text).machine ∧ (m.evaluate text).machine.WellScoped := by
  cases h : m.fragmentProgram text with
  | error e =>
    rw [(evaluate_of_error h).1]
    exact ⟨.refl m, hm⟩
  | ok p =>
    rw [(evaluate_of_ok h).1]
    have hs := spares_fragmentRun hq h
    have hread : m.frame.chain.ids.map (m.fragmentRun p).machine.scopes.read =
        m.frame.chain.ids.map m.scopes.read :=
      List.map_congr_left fun i hi => hs.scopes i (hm.known i hi)
    have hworld : (m.withMemory (m.fragmentRun p).machine).world = m.world := by
      unfold world withMemory
      rw [hs.globals]
      simp only [hread]
    refine ⟨⟨rfl, rfl, rfl, rfl, rfl, rfl, rfl, hworld⟩, hm.nodup, fun i hi => ?_⟩
    exact Nat.lt_of_lt_of_le (hm.known i hi) (next_le_fragmentRun h)

end Machine
end ScriptDebug
