/-
# Reading keeps its limits

A reader that halts where a limit is broken reads every sequence of tokens as the
reader without limits does, and so breaks none (`reading_keeps_limits`): its loops end
since each of their rounds takes a token, there is a token at each index that it looks
at, and its calls are never nested deeper than a number that is fixed by the limit on
nesting alone.

What is left to compare are the statements. Those of a block and those of a text are
one loop with two ends (`Tree.Held.rounds_bodyRound`), an induction over the tokens
that are left; a block pays for its statements with the nesting.

Key definitions: `Tree.Held.closeBlock`, `Tree.Held.closeText`.
Key theorems: `Tree.Held.rounds_bodyRound`, `Tree.Held.statement_reads`,
`reading_keeps_limits`.
-/
import ScriptDebug.Proofs.Script.Lockstep

namespace ScriptDebug
namespace Tree
namespace Held

variable {i : Input} {pos d b : Nat} {t : Token} {ts : List Token}

/-! ### Statements -/

theorem terminator_reads (h : i.From pos ts) :
    Reads i d (Tree.terminator i.stop ts) (terminator i ⟨pos, d⟩) := by
  unfold terminator
  rw [bind_of_ok (peek_from h)]
  cases ts with
  | nil =>
    rw [bind_of_ok (eat_of_neg h rfl)]
    exact .ok h
  | cons t ts =>
    obtain ⟨lexeme, span⟩ := t
    cases lexeme with
    | semicolon =>
      rw [bind_of_ok (eat_of_pos h rfl)]
      exact .ok h.tail
    | braceClose =>
      rw [bind_of_ok (eat_of_neg h rfl)]
      exact .ok h
    | _ =>
      rw [bind_of_ok (eat_of_neg h rfl), if_neg Bool.false_ne_true, if_neg (by simp), refuse_from h]
      exact .error _

section

variable {calls : Nat}

theorem initialiser_reads (hcalls : 12 * b + 11 ≤ calls) (hb : d + b = maxNesting)
    (h : i.From pos ts) :
    Reads i d (Tree.initialiser i.stop b ts) (initialiser i calls ⟨pos, d⟩) := by
  unfold initialiser
  cases ts with
  | nil =>
    rw [bind_of_ok (eat_of_neg h rfl)]
    exact .ok h
  | cons t ts =>
    obtain ⟨lexeme, span⟩ := t
    cases lexeme with
    | assign =>
      rw [bind_of_ok (eat_of_pos h rfl)]
      refine ((within i calls).expression hcalls hb h.tail).bind fun value left pos _ hleft => ?_
      exact .ok hleft
    | _ =>
      rw [bind_of_ok (eat_of_neg h rfl)]
      exact .ok h

theorem declaration_reads (hcalls : 12 * b + 11 ≤ calls) (hb : d + b = maxNesting)
    (h : i.From pos (t :: ts)) (how : Declaration) :
    Reads i d (Tree.declaration i.stop b how t.span ts) (declaration i calls how ⟨pos, d⟩) := by
  unfold declaration
  rw [bind_of_ok (advance_from h)]
  cases ts with
  | nil =>
    rw [bind_of_ok (advance_end h.tail)]
    exact .error _
  | cons x ts =>
    rw [bind_of_ok (advance_from h.tail)]
    obtain ⟨lexeme, span⟩ := x
    cases lexeme with
    | name x =>
      refine (initialiser_reads hcalls hb h.tail.tail).bind fun init left pos _ hleft => ?_
      exact (terminator_reads hleft).bind fun last left pos _ hleft => .ok hleft
    | _ => exact .error _

/-- A statement that is an expression. -/
theorem simple_expression (stop b : Nat) (ts : List Token) (hpause : t.lexeme ≠ .kwDebugger)
    (hlet : t.lexeme ≠ .kwLet) (hvar : t.lexeme ≠ .kwVar) :
    simple stop b t ts = Tree.assignment stop b (t :: ts) >>= fun r =>
      Tree.terminator stop r.2 >>= fun s => .ok (.expr (t.span.to s.1) r.1, s.2) := by
  unfold simple
  split <;> first | contradiction | rfl

/-! ### Loops of statements -/

section

variable {ends : Option Token → Reader Bool} {next : Reader Stmt} {done : List Stmt}

theorem bodyRound_end (h : i.From pos ts)
    (hends : ends ts.head? ⟨pos, d⟩ = .ok (true, ⟨pos, d⟩)) :
    bodyRound i ends next done ⟨pos, d⟩ = .ok (.inr done.reverse, ⟨pos, d⟩) := by
  unfold bodyRound
  rw [bind_of_ok (peek_from h), bind_of_ok hends]
  rfl

theorem bodyRound_next (h : i.From pos ts)
    (hends : ends ts.head? ⟨pos, d⟩ = .ok (false, ⟨pos, d⟩)) :
    bodyRound i ends next done ⟨pos, d⟩ =
      (next >>= fun s => return .inl (s :: done)) ⟨pos, d⟩ := by
  unfold bodyRound
  rw [bind_of_ok (peek_from h), bind_of_ok hends]
  rfl

end

/-- Statements up to a closing brace or the end of the text, where `ending` says what becomes of
them. The loop has those it has read in reverse. -/
theorem rounds_bodyRound {b d pos : Nat} {ts : List Token} {ends : Option Token → Reader Bool}
    {next : Reader Stmt} {ending : List Stmt × List Token → Except Misread (List Stmt × List Token)}
    (hnext : ∀ pos t ts, i.From pos (t :: ts) → Reads i d (readStmt i.stop b t ts) (next ⟨pos, d⟩))
    (hends : ∀ t pos, t.lexeme ≠ .braceClose → ends (some t) ⟨pos, d⟩ = .ok (false, ⟨pos, d⟩))
    (hending : ∀ done pos ts, i.From pos ts → (∀ t ∈ ts.head?, t.lexeme = .braceClose) →
      Reads i d (ending (done.reverse, ts)) (rounds i (bodyRound i ends next) done ⟨pos, d⟩))
    (done : List Stmt) (h : i.From pos ts) :
    Reads i d (readBody i.stop b ts >>= fun r => ending (done.reverse ++ r.1, r.2))
      (rounds i (bodyRound i ends next) done ⟨pos, d⟩) := by
  cases ts with
  | nil =>
    rw [readBody_nil]
    show Reads i d (ending (done.reverse ++ [], [])) _
    rw [List.append_nil]
    exact hending _ _ _ h nofun
  | cons t ts =>
    by_cases hclose : t.lexeme = .braceClose
    · rw [readBody_close _ _ hclose]
      show Reads i d (ending (done.reverse ++ [], t :: ts)) _
      rw [List.append_nil]
      exact hending _ _ _ h (by rintro _ ⟨⟩; exact hclose)
    · have hassoc : (readBody i.stop b (t :: ts) >>= fun r => ending (done.reverse ++ r.1, r.2)) =
          readStmt i.stop b t ts >>= fun first => readBody i.stop b first.2 >>= fun r =>
            ending ((first.1 :: done).reverse ++ r.1, r.2) := by
        rw [readBody_cons _ _ hclose]
        simp only [bind_assoc, List.reverse_cons, List.append_assoc, List.singleton_append]
        rfl
      rw [hassoc]
      refine Reads.rounds h (bodyRound_next h (hends _ _ hclose)) (hnext _ _ _ h)
        (fun s left hs => Nat.lt_succ_of_le (readStmt_length hs)) fun s left pos hs hleft => ?_
      have hshorter := readStmt_length hs
      exact rounds_bodyRound hnext hends hending (s :: done) hleft
termination_by ts.length
decreasing_by
  subst_vars
  exact Nat.lt_succ_of_le hshorter

/-! ### Blocks and texts -/

/-- What becomes of a block where its statements are over. -/
def closeBlock (stop : Nat) : List Stmt × List Token → Except Misread (List Stmt × List Token)
  | (_, []) => fail .expectedBraceClose stop
  | (body, t :: ts) => .ok (body, t :: ts)

theorem blockEnds_of_close {c : Cursor} (ht : t.lexeme = .braceClose) :
    blockEnds i (some t) c = .ok (true, c) := by
  obtain ⟨lexeme, span⟩ := t
  obtain rfl : lexeme = .braceClose := ht
  rfl

theorem blockEnds_of_ne {c : Cursor} (ht : t.lexeme ≠ .braceClose) :
    blockEnds i (some t) c = .ok (false, c) := by
  obtain ⟨lexeme, span⟩ := t
  cases lexeme with
  | braceClose => exact absurd rfl ht
  | _ => rfl

theorem rounds_block {n : Nat} (h : i.From pos ts)
    (hnext : ∀ pos t ts, i.From pos (t :: ts) →
      Reads i d (readStmt i.stop b t ts) (statement i n ⟨pos, d⟩)) :
    Reads i d (readBody i.stop b ts >>= closeBlock i.stop)
      (rounds i (bodyRound i (blockEnds i) (statement i n)) [] ⟨pos, d⟩) := by
  refine rounds_bodyRound hnext (fun t pos ht => ?_) (fun done pos ts hfrom hclose => ?_) [] h
  · exact blockEnds_of_ne ht
  · cases ts with
    | nil =>
      have hround : bodyRound i (blockEnds i) (statement i n) done ⟨pos, d⟩ =
          .error (.misread ⟨.expectedBraceClose, i.stop⟩) := by
        unfold bodyRound
        rw [bind_of_ok (peek_from hfrom)]
        exact bind_of_error (refuse_from hfrom _)
      rw [rounds_of_error hround]
      exact .error _
    | cons t ts =>
      rw [rounds_of_done (bodyRound_end hfrom (blockEnds_of_close (hclose t rfl)))]
      exact .ok hfrom

/-- A block, whose statements are read first and whose closing brace is taken then. -/
theorem readStmt_block (i : Input) (ht : t.lexeme = .braceOpen) :
    readStmt i.stop b t ts = Tree.descend b (here i.stop ts) >>= fun inner =>
      (readBody i.stop inner ts >>= closeBlock i.stop) >>= fun r =>
        .ok (.block (t.span.to (i.span r.2.head?)) r.1, r.2.tail) := by
  rw [readStmt_open _ _ ht]
  congr 1
  funext inner
  rcases readBody i.stop inner ts with m | ⟨body, _ | ⟨close, rest⟩⟩ <;> rfl

theorem statement_reads {n : Nat} (hn : 12 * b + 12 ≤ n) (hb : d + b = maxNesting)
    (h : i.From pos (t :: ts)) :
    Reads i d (readStmt i.stop b t ts) (statement i n ⟨pos, d⟩) := by
  induction n generalizing b d pos t ts with
  | zero => omega
  | succ n ih =>
    have hcalls : 12 * b + 11 ≤ n := by omega
    rw [statement, bind_of_ok (peek_from h), List.head?_cons, Option.map_some]
    cases hlexeme : t.lexeme with
    | semicolon =>
      dsimp only
      rw [readStmt_semicolon _ _ hlexeme, bind_of_ok (advance_from h)]
      exact .ok h.tail
    | kwDebugger =>
      dsimp only
      rw [readStmt_simple _ _ (by rw [hlexeme]; nofun) (by rw [hlexeme]; nofun), simple, hlexeme,
        bind_of_ok (advance_from h)]
      exact (terminator_reads h.tail).bind fun last left pos _ hleft => .ok hleft
    | braceOpen =>
      dsimp only
      rw [readStmt_block i hlexeme, bind_of_ok (advance_from h)]
      refine .descend h.tail hb fun inner hlt hb' => ?_
      refine (rounds_block h.tail fun pos t ts => ih (by omega) hb').bind
        fun body left pos hbody hleft => ?_
      rw [bind_of_ok ascend_one]
      cases left with
      | nil =>
        rw [bind_of_ok (advance_end hleft)]
        exact .ok hleft
      | cons close left =>
        rw [bind_of_ok (advance_from hleft)]
        exact .ok hleft.tail
    | kwLet =>
      dsimp only
      rw [readStmt_simple _ _ (by rw [hlexeme]; nofun) (by rw [hlexeme]; nofun), simple, hlexeme]
      exact declaration_reads hcalls hb h .lexical
    | kwVar =>
      dsimp only
      rw [readStmt_simple _ _ (by rw [hlexeme]; nofun) (by rw [hlexeme]; nofun), simple, hlexeme]
      exact declaration_reads hcalls hb h .globalProperty
    | _ =>
      dsimp only
      rw [readStmt_simple _ _ (by rw [hlexeme]; nofun) (by rw [hlexeme]; nofun),
        simple_expression _ _ _ (by rw [hlexeme]; nofun) (by rw [hlexeme]; nofun)
          (by rw [hlexeme]; nofun)]
      refine ((within i n).expression hcalls hb h).bind fun value left pos _ hleft => ?_
      exact (terminator_reads hleft).bind fun last left pos _ hleft => .ok hleft

/-- A chain is misread where the unary expression that it starts with is. -/
theorem chain_of_error {stop : Nat} {m : Misread} (h : Tree.unary stop b ts = .error m) :
    ∀ l : Level, Tree.chain stop b l ts = .error m
  | .multiplicative => by rw [Tree.chain, Tree.operand, h]; rfl
  | .additive => by rw [Tree.chain, Tree.operand, chain_of_error h .multiplicative]; rfl
  | .comparison => by rw [Tree.chain, Tree.operand, chain_of_error h .additive]; rfl
  | .equality => by rw [Tree.chain, Tree.operand, chain_of_error h .comparison]; rfl
termination_by l => l.rank

/-- No statement starts with a closing brace. -/
theorem readStmt_close (stop : Nat) (hb : 0 < b) (ht : t.lexeme = .braceClose) (ts : List Token) :
    readStmt stop b t ts = fail .unexpectedToken t.span.start := by
  obtain ⟨inner, rfl⟩ := Nat.exists_eq_add_of_lt hb
  have hunary : Tree.unary stop (0 + inner + 1) (t :: ts) = fail .unexpectedToken t.span.start := by
    obtain ⟨lexeme, span⟩ := t
    obtain rfl : lexeme = .braceClose := ht
    rw [Tree.unary]
    show Tree.primary stop (0 + inner) ⟨.braceClose, span⟩ ts = _
    rw [Tree.primary]
    rfl
  rw [readStmt_simple _ _ (by rw [ht]; nofun) (by rw [ht]; nofun),
    simple_expression _ _ _ (by rw [ht]; nofun) (by rw [ht]; nofun) (by rw [ht]; nofun),
    Tree.assignment, chain_of_error hunary .equality]
  rfl

/-- What becomes of a whole text where its statements are over. -/
def closeText : List Stmt × List Token → Except Misread (List Stmt × List Token)
  | (body, []) => .ok (body, [])
  | (_, t :: _) => fail .unexpectedToken t.span.start

theorem rounds_text {n : Nat} (hn : 12 * maxNesting + 12 ≤ n) (h : i.From pos ts) :
    Reads i 0 (readBody i.stop maxNesting ts >>= closeText)
      (rounds i (bodyRound i (fun t => return t.isNone) (statement i n)) [] ⟨pos, 0⟩) := by
  have hstatement : ∀ pos t ts, i.From pos (t :: ts) →
      Reads i 0 (readStmt i.stop maxNesting t ts) (statement i n ⟨pos, 0⟩) :=
    fun pos t ts hfrom => statement_reads hn (Nat.zero_add _) hfrom
  refine rounds_bodyRound hstatement (fun t pos ht => rfl) (fun done pos ts hfrom hclose => ?_) [] h
  cases ts with
  | nil =>
    rw [rounds_of_done (bodyRound_end hfrom rfl)]
    exact .ok hfrom
  | cons t ts =>
    have hread := hstatement pos t ts hfrom
    rw [readStmt_close i.stop (by decide) (hclose t rfl)] at hread
    rw [rounds_of_error ((bodyRound_next hfrom rfl).trans (bind_of_error hread.halts))]
    exact .error _

/-- What is read to the end of the text ends behind its last token, and no deeper than it began. -/
theorem program_reads {calls : Nat} (hcalls : callLimit maxNesting ≤ calls) (i : Input) :
    program i calls ⟨0, 0⟩ =
      match readBody i.stop maxNesting i.tokens >>= closeText with
      | .ok r => .ok (r.1, ⟨i.tokens.length, 0⟩)
      | .error m => .error (.misread m) := by
  unfold callLimit at hcalls
  obtain ⟨n, rfl⟩ : ∃ n, calls = n + 1 := ⟨calls - 1, by omega⟩
  have hreads := rounds_text (n := n) (by omega) (Input.from_zero i)
  rw [program]
  generalize readBody i.stop maxNesting i.tokens = read at hreads ⊢
  rcases read with m | ⟨body, _ | ⟨t, rest⟩⟩
  · exact hreads.halts
  · obtain ⟨pos, hfrom, heq⟩ := hreads.gives
    have hlength := hfrom.add_length
    rw [List.length_nil, Nat.add_zero] at hlength
    rw [heq, hlength]
    rfl
  · exact hreads.halts

end

end Held
end Tree

/-- **Reading ends, takes a token in each round of each loop, never asks for a token behind the end
token, and nests its calls no deeper than the limit on nesting makes it.** A reader that halts where
any of this does not hold reads the same as the one that heeds none of it: it is given as many calls
as `Tree.Held.callLimit` says or more, and no number of tokens asks for more of them. -/
theorem reading_keeps_limits (stop : Nat) (ts : List Token) (spare : Nat) :
    Tree.Held.program ⟨ts, stop⟩ (Tree.Held.callLimit Tree.maxNesting + spare) ⟨0, 0⟩ =
      match Tree.ofTokens stop ts with
      | .ok body => .ok (body, ⟨ts.length, 0⟩)
      | .error m => .error (.misread m) := by
  rw [Tree.Held.program_reads (Nat.le_add_right _ _), Tree.ofTokens_eq]
  rcases Tree.readBody stop Tree.maxNesting ts with m | ⟨body, _ | ⟨t, rest⟩⟩ <;> rfl

/-- With too few calls it halts, and says so. -/
example : Tree.Held.program ⟨[⟨.kwNull, ⟨0, 4⟩⟩], 4⟩ 13 ⟨0, 0⟩ = .error .callsExceeded :=
  Tree.Held.rounds_of_error rfl

end ScriptDebug
