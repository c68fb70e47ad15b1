/-
# What a tree can contain

A vocabulary says which number literals a tree may hold and which names it may
read, assign and declare as global properties. A tree that was read from tokens
holds nothing that no token holds: its numbers are written in decimal, so they
have no sign, and its names stand in the source (`ofSource_within`).

Key definitions: `Vocabulary`, `Expr.Within`, `Stmt.Within`, `Source.Names`.
Key theorems: `Tree.assignment_within`, `Tree.statements_within`, `Tree.ofSource_within_all`,
`Tree.ofSource_within`.
-/
import ScriptDebug.Proofs.Number.Sign
import ScriptDebug.Proofs.Script.Lexeme
import ScriptDebug.Script.Tree.Statement

namespace ScriptDebug

/-- The numbers of a tree, and the names that it reads, assigns and declares as properties of the
global object. -/
structure Vocabulary where
  number : Float → Prop
  reads : String → Prop
  assigns : String → Prop
  globals : String → Prop

/-- Every use of the names `name`, and the numbers `number`. -/
def Vocabulary.all (number : Float → Prop) (name : String → Prop) : Vocabulary :=
  ⟨number, name, name, name⟩

/-- Anything may be read, but nothing is assigned or declared global. -/
def Vocabulary.quiet : Vocabulary :=
  ⟨fun _ => True, fun _ => True, fun _ => False, fun _ => False⟩

namespace Expr

def Within (V : Vocabulary) : Expr → Prop
  | .number x => V.number x
  | .string _ | .bool _ | .null | .undefined | .self => True
  | .name x => V.reads x
  | .unary _ e => e.Within V
  | .binary _ l r => l.Within V ∧ r.Within V
  | .assign x e => V.assigns x ∧ e.Within V

end Expr

mutual

/-- A `let` may declare any name. -/
def Stmt.Within (V : Vocabulary) : Stmt → Prop
  | .empty _ | .pause _ => True
  | .declare _ how x init =>
    (how = .globalProperty → V.globals x) ∧ (init.getD .undefined).Within V
  | .expr _ e => e.Within V
  | .block _ body => BodyWithin V body

def BodyWithin (V : Vocabulary) : List Stmt → Prop
  | [] => True
  | s :: body => s.Within V ∧ BodyWithin V body

end

/-- The names that stand in a source. -/
def Source.Names (source : Source) (x : String) : Prop :=
  ∃ ts, Token.ofText source.text = .ok ts ∧ ∃ t ∈ ts, t.lexeme = .name x

/-- The vocabulary of a source: the names in it, and numbers without a sign. -/
def Source.vocabulary (source : Source) : Vocabulary := .all Number.Unsigned source.Names

/-! ### From the text to tokens -/

/-- Whether the number that a lexeme holds, if it holds one, is written in decimal. -/
def Lexeme.IsWritten : Lexeme → Prop
  | .number x => Number.IsWritten x
  | _ => True

namespace Token

/-- One case of a table. -/
theorem isWritten_ite {p : Prop} [Decidable p] {l : Lexeme} {others : Option Lexeme}
    (hl : l.IsWritten) (ho : ∀ k ∈ others, k.IsWritten) :
    ∀ k ∈ if p then some l else others, k.IsWritten := by
  intro k hk
  split at hk
  · rw [Option.mem_some] at hk
    exact hk ▸ hl
  · exact ho k hk

theorem isWritten_none : ∀ l ∈ (none : Option Lexeme), l.IsWritten := fun _ h => nomatch h

theorem isWritten_keyword (word : String) : ∀ l ∈ Lexeme.keyword? word, l.IsWritten := by
  unfold Lexeme.keyword?
  repeat refine isWritten_ite trivial ?_
  exact isWritten_none

theorem isWritten_ofWord (word : String) : (Lexeme.ofWord word).IsWritten := by
  unfold Lexeme.ofWord
  cases h : Lexeme.keyword? word with
  | none => trivial
  | some l => exact isWritten_keyword word l h

theorem isWritten_withEquals (c : Char) : ∀ l ∈ Lexeme.withEquals? c, l.IsWritten := by
  unfold Lexeme.withEquals?
  repeat refine isWritten_ite trivial ?_
  exact isWritten_none

theorem isWritten_sign (c : Char) : ∀ l ∈ Lexeme.sign? c, l.IsWritten := by
  unfold Lexeme.sign?
  repeat refine isWritten_ite trivial ?_
  exact isWritten_none

theorem isWritten_numeral {literal : List Char} {l : Lexeme} (h : numeral literal = .ok l) :
    l.IsWritten := by
  unfold numeral at h
  split at h
  · rename_i hx
    cases h
    exact Number.isWritten_of_readDecimal? hx
  · cases h

theorem isWritten_readLexeme {c : Char} {cs rest : List Char} {l : Lexeme} {width : Nat}
    (h : readLexeme c cs = .ok (l, width, rest)) : l.IsWritten := by
  cases readLexeme_eq_ok.1 h with
  | number _ hread => exact isWritten_numeral hread
  | string => trivial
  | word => exact isWritten_ofWord _
  | pair hpair => exact isWritten_withEquals c l hpair
  | sign hsign => exact isWritten_sign c l hsign

theorem isWritten_scan {tokens found : Array Token} {o : Nat} {cs : List Char}
    (h : scan tokens o cs = .ok found) (ht : ∀ t ∈ tokens, t.lexeme.IsWritten) :
    ∀ t ∈ found, t.lexeme.IsWritten := by
  fun_induction scan tokens o cs with
  | case1 tokens o =>
    cases h
    exact ht
  | case2 tokens o c cs _ ih => exact ih h ht
  | case3 tokens o c cs _ _ ih => exact ih h ht
  | case4 => cases h
  | case5 tokens o c cs _ _ l width rest hl ih =>
    refine ih h fun t hmem => ?_
    rcases Array.mem_push.1 hmem with hmem | rfl
    · exact ht t hmem
    · exact isWritten_readLexeme hl

/-- The numbers of a text are written in decimal: a sign is a token of its own. -/
theorem isWritten_ofText {text : String} {ts : List Token} (h : ofText text = .ok ts) :
    ∀ t ∈ ts, t.lexeme.IsWritten := by
  unfold ofText at h
  cases hs : scan #[] 0 text.toList with
  | error e => simp [hs, Except.map] at h
  | ok found =>
    rw [hs] at h
    cases h
    exact fun t ht => isWritten_scan hs (by simp) t (Array.mem_toList_iff.1 ht)

end Token

/-! ### From tokens to trees -/

namespace Tree

/-- Whether the number or the name that a lexeme holds, if it holds one, is among the given. -/
def Covered (number : Float → Prop) (name : String → Prop) : Lexeme → Prop
  | .number x => number x
  | .name x => name x
  | _ => True

def Covers (number : Float → Prop) (name : String → Prop) (ts : List Token) : Prop :=
  ∀ t ∈ ts, Covered number name t.lexeme

variable {number : Float → Prop} {name : String → Prop} {stop : Nat}

theorem Covers.tail {t : Token} {ts : List Token} (h : Covers number name (t :: ts)) :
    Covers number name ts :=
  fun s hs => h s (List.mem_cons_of_mem _ hs)

theorem atom?_within {l : Lexeme} {e : Expr} (h : atom? l = some e) (hl : Covered number name l) :
    e.Within (.all number name) := by
  cases l <;> cases h <;> exact hl

mutual

theorem assignment_within {budget : Nat} {ts : List Token} {e : Expr} {rest : List Token}
    (h : assignment stop budget ts = .ok (e, rest)) (hts : Covers number name ts) :
    e.Within (.all number name) ∧ Covers number name rest := by
  rw [assignment] at h
  obtain ⟨⟨target, left⟩, hc, h⟩ := bind_eq_ok.1 h
  obtain ⟨ht, hleft⟩ := chain_within hc hts
  dsimp only at h
  split at h
  · obtain ⟨⟨inner, hi⟩, _, h⟩ := bind_eq_ok.1 h
    obtain ⟨⟨value, left⟩, hv, h⟩ := bind_eq_ok.1 h
    obtain ⟨hv, hleft⟩ := assignment_within hv hleft.tail
    cases target with
    | name x =>
      cases h
      exact ⟨⟨ht, hv⟩, hleft⟩
    | _ => simp [fail] at h
  · cases h
    exact ⟨ht, hleft⟩
termination_by (budget, 10)

theorem chain_within {budget : Nat} {level : Level} {ts : List Token} {e : Expr}
    {rest : List Token} (h : chain stop budget level ts = .ok (e, rest))
    (hts : Covers number name ts) :
    e.Within (.all number name) ∧ Covers number name rest := by
  rw [chain] at h
  obtain ⟨⟨lhs, left⟩, ho, h⟩ := bind_eq_ok.1 h
  obtain ⟨ho, hleft⟩ := operand_within ho hts
  exact fold_within h ho hleft
termination_by (budget, 2 * level.rank + 1)

theorem fold_within {budget : Nat} {level : Level} {lhs : Expr} {ts : List Token} {e : Expr}
    {rest : List Token} (h : fold stop budget level lhs ts = .ok (e, rest))
    (hlhs : lhs.Within (.all number name)) (hts : Covers number name ts) :
    e.Within (.all number name) ∧ Covers number name rest := by
  rw [fold.eq_def] at h
  split at h
  · cases h
    exact ⟨hlhs, hts⟩
  · split at h
    · cases h
      exact ⟨hlhs, hts⟩
    · obtain ⟨⟨inner, hi⟩, _, h⟩ := bind_eq_ok.1 h
      obtain ⟨⟨rhs, left⟩, ho, h⟩ := bind_eq_ok.1 h
      obtain ⟨ho, hleft⟩ := operand_within ho hts.tail
      exact fold_within h ⟨hlhs, ho⟩ hleft
termination_by (budget, 0)

theorem operand_within {budget : Nat} {level : Level} {ts : List Token} {e : Expr}
    {rest : List Token} (h : operand stop budget level ts = .ok (e, rest))
    (hts : Covers number name ts) :
    e.Within (.all number name) ∧ Covers number name rest := by
  rw [operand.eq_def] at h
  split at h
  · exact chain_within h hts
  · exact chain_within h hts
  · exact chain_within h hts
  · exact unary_within h hts
termination_by (budget, 2 * level.rank)

theorem unary_within {budget : Nat} {ts : List Token} {e : Expr} {rest : List Token}
    (h : unary stop budget ts = .ok (e, rest)) (hts : Covers number name ts) :
    e.Within (.all number name) ∧ Covers number name rest := by
  rw [unary] at h
  obtain ⟨⟨inner, hi⟩, _, h⟩ := bind_eq_ok.1 h
  dsimp only at h
  split at h
  · simp [fail] at h
  · split at h
    · obtain ⟨⟨value, left⟩, hv, h⟩ := bind_eq_ok.1 h
      obtain ⟨hv, hleft⟩ := unary_within hv hts.tail
      cases h
      exact ⟨hv, hleft⟩
    · exact primary_within h (hts _ List.mem_cons_self) hts.tail
termination_by (budget, 0)

theorem primary_within {budget : Nat} {t : Token} {ts : List Token} {e : Expr}
    {rest : List Token} (h : primary stop budget t ts = .ok (e, rest))
    (ht : Covered number name t.lexeme) (hts : Covers number name ts) :
    e.Within (.all number name) ∧ Covers number name rest := by
  rw [primary] at h
  split at h
  · rename_i ha
    cases h
    exact ⟨atom?_within ha ht, hts⟩
  · split at h
    · obtain ⟨⟨value, left⟩, hv, h⟩ := bind_eq_ok.1 h
      obtain ⟨hw, hleft⟩ := assignment_within hv hts
      dsimp only at h
      split at h
      · cases h
        exact ⟨hw, hleft.tail⟩
      · simp [fail] at h
    · simp [fail] at h
termination_by (budget, 11)

end

theorem terminator_covers {ts rest : List Token} {span : Span}
    (h : terminator stop ts = .ok (span, rest)) (hts : Covers number name ts) :
    Covers number name rest := by
  unfold terminator at h
  split at h
  · cases h
    exact hts
  · split at h
    · cases h
      exact hts.tail
    · cases h
      exact hts
    · simp [fail] at h

theorem initialiser_within {budget : Nat} {ts rest : List Token} {init : Option Expr}
    (h : initialiser stop budget ts = .ok (init, rest)) (hts : Covers number name ts) :
    (init.getD .undefined).Within (.all number name) ∧ Covers number name rest := by
  unfold initialiser at h
  split at h
  · obtain ⟨⟨value, left⟩, hv, h⟩ := bind_eq_ok.1 h
    obtain ⟨hw, hleft⟩ := assignment_within hv hts.tail
    cases h
    exact ⟨hw, hleft⟩
  · cases h
    exact ⟨trivial, hts⟩

theorem declaration_within {budget : Nat} {how : Declaration} {start : Span}
    {ts rest : List Token} {s : Stmt} (h : declaration stop budget how start ts = .ok (s, rest))
    (hts : Covers number name ts) : s.Within (.all number name) ∧ Covers number name rest := by
  unfold declaration at h
  split at h
  · obtain ⟨⟨init, left⟩, hi, h⟩ := bind_eq_ok.1 h
    obtain ⟨⟨last, left⟩, hl, h⟩ := bind_eq_ok.1 h
    have hx : Covered number name _ := hts _ List.mem_cons_self
    obtain ⟨hw, hleft⟩ := initialiser_within hi hts.tail
    cases h
    exact ⟨⟨fun _ => hx, hw⟩, terminator_covers hl hleft⟩
  · simp [fail] at h

theorem simple_within {budget : Nat} {t : Token} {ts rest : List Token} {s : Stmt}
    (h : simple stop budget t ts = .ok (s, rest)) (hts : Covers number name (t :: ts)) :
    s.Within (.all number name) ∧ Covers number name rest := by
  unfold simple at h
  split at h
  · obtain ⟨⟨last, left⟩, hl, h⟩ := bind_eq_ok.1 h
    cases h
    exact ⟨trivial, terminator_covers hl hts.tail⟩
  · exact declaration_within h hts.tail
  · exact declaration_within h hts.tail
  · obtain ⟨⟨value, left⟩, hv, h⟩ := bind_eq_ok.1 h
    obtain ⟨⟨last, left⟩, hl, h⟩ := bind_eq_ok.1 h
    obtain ⟨hw, hleft⟩ := assignment_within hv hts
    cases h
    exact ⟨hw, terminator_covers hl hleft⟩

mutual

theorem statement_within {budget : Nat} {t : Token} {ts : List Token} {s : Stmt}
    {rest : NotLonger ts} (h : statement stop budget t ts = .ok (s, rest))
    (hts : Covers number name (t :: ts)) :
    s.Within (.all number name) ∧ Covers number name rest.1 := by
  rw [statement.eq_def] at h
  split at h
  · cases h
    exact ⟨trivial, hts.tail⟩
  · obtain ⟨⟨inner, hi⟩, _, h⟩ := bind_eq_ok.1 h
    obtain ⟨⟨body, left, hl⟩, hb, h⟩ := bind_eq_ok.1 h
    obtain ⟨hw, hleft⟩ := statements_within hb hts.tail
    dsimp only at h
    split at h
    · simp [fail] at h
    · cases h
      exact ⟨hw, Covers.tail hleft⟩
  · unfold bounded at h
    split at h
    · rename_i hs _
      cases h
      exact simple_within hs hts
    · cases h
termination_by 2 * ts.length + 1

theorem statements_within {budget : Nat} {ts : List Token} {body : List Stmt}
    {rest : NotLonger ts} (h : statements stop budget ts = .ok (body, rest))
    (hts : Covers number name ts) :
    BodyWithin (.all number name) body ∧ Covers number name rest.1 := by
  rw [statements.eq_def] at h
  cases ts with
  | nil =>
    cases h
    exact ⟨trivial, hts⟩
  | cons t tail =>
    dsimp only at h
    split at h
    · cases h
      exact ⟨trivial, hts⟩
    · obtain ⟨⟨s, left, hl⟩, hs, h⟩ := bind_eq_ok.1 h
      obtain ⟨⟨more, after, ha⟩, hm, h⟩ := bind_eq_ok.1 h
      obtain ⟨hw, hleft⟩ := statement_within hs hts
      obtain ⟨hmore, hafter⟩ := statements_within hm hleft
      cases h
      exact ⟨⟨hw, hmore⟩, hafter⟩
termination_by 2 * ts.length
decreasing_by
  all_goals
    subst_vars
    simp only [List.length_cons]
    omega

end

/-- A tree holds the names of its source, and no numbers but those that decimals write. -/
theorem ofSource_within_all {number : Float → Prop} (hnumber : ∀ x, Number.IsWritten x → number x)
    {source : Source} {body : List Stmt} (h : ofSource source = .ok body) :
    BodyWithin (.all number source.Names) body := by
  unfold ofSource at h
  split at h
  · rename_i hb
    cases h
    obtain ⟨ts, hts, hb⟩ := bind_eq_ok.1 hb
    unfold ofTokens at hb
    obtain ⟨⟨found, left, hl⟩, hs, hb⟩ := bind_eq_ok.1 hb
    dsimp only at hb
    split at hb
    · cases hb
      refine (statements_within hs fun t ht => ?_).1
      have hw := Token.isWritten_ofText hts t ht
      cases hlex : t.lexeme with
      | number x =>
        rw [hlex] at hw
        exact hnumber x hw
      | name x => exact ⟨ts, hts, t, ht, hlex⟩
      | _ => trivial
    · simp [fail] at hb
  · cases h

/-- **A tree is within the vocabulary of its source.** -/
theorem ofSource_within {source : Source} {body : List Stmt} (h : ofSource source = .ok body) :
    BodyWithin source.vocabulary body :=
  ofSource_within_all (fun _ => Number.IsWritten.unsigned) h

end Tree
end ScriptDebug
