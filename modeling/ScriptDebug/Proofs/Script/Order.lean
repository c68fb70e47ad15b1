/-
# Statements stand in the order of their text

Tokens start one after the other, and a closing brace is one byte wide
(`Token.ordered_ofText`). A statement starts where its first token does, and a
block ends with its closing brace. So what a tree says about where its statements
start and its blocks end is, in the order of the tree, a part of where the tokens
start (`Tree.statements_offsets`), and ascends strictly (`Tree.ofSource_offsets`).

Key definitions: `Token.Ordered`, `Stmt.offsets`, `bodyOffsets`.
Key theorems: `Token.ordered_ofText`, `Tree.statements_offsets`, `Tree.ofSource_offsets`.
-/
import ScriptDebug.Proofs.Script.Acceptance
import ScriptDebug.Proofs.Script.Lexeme

namespace ScriptDebug

/-! ### Tokens -/

def Token.start (t : Token) : Nat := t.span.start

/-- Every token starts after the one before it, and a closing brace is one byte wide. -/
structure Token.Ordered (ts : List Token) : Prop where
  starts : (ts.map Token.start).Pairwise (· < ·)
  braces : ∀ t ∈ ts, t.lexeme = .braceClose → t.span.stop = t.start + 1

namespace Token

/-- A lexeme has bytes, and a closing brace has one. -/
theorem readLexeme_width {c : Char} {cs rest : List Char} {l : Lexeme} {width : Nat}
    (h : readLexeme c cs = .ok (l, width, rest)) :
    0 < width ∧ (l = .braceClose → width = 1) := by
  cases readLexeme_eq_ok.1 h with
  | number _ hread =>
    refine ⟨Nat.succ_pos _, ?_⟩
    rintro rfl
    exact absurd hread (numeral_ne_braceClose _)
  | string => exact ⟨by omega, nofun⟩
  | word => exact ⟨Nat.succ_pos _, fun hl => absurd hl (ofWord_ne_braceClose _)⟩
  | pair hpair =>
    refine ⟨Nat.succ_pos _, ?_⟩
    rintro rfl
    exact absurd hpair (withEquals?_ne_braceClose c)
  | sign => exact ⟨Nat.one_pos, fun _ => rfl⟩

/-- The scanner keeps its tokens in order, all of them before where it is. -/
theorem ordered_scan {tokens found : Array Token} {o : Nat} {cs : List Char}
    (h : scan tokens o cs = .ok found) (ht : Ordered tokens.toList)
    (hb : ∀ t ∈ tokens.toList, t.start < o) : Ordered found.toList := by
  fun_induction scan tokens o cs with
  | case1 tokens o =>
    cases h
    exact ht
  | case2 tokens o c cs _ ih => exact ih h ht fun t hmem => Nat.lt_succ_of_lt (hb t hmem)
  | case3 tokens o c cs _ _ ih =>
    refine ih h ht fun t hmem => ?_
    have := hb t hmem
    omega
  | case4 => cases h
  | case5 tokens o c cs _ _ l width rest hl ih =>
    obtain ⟨hpos, hbrace⟩ := readLexeme_width hl
    refine ih h ⟨?_, fun t hmem => ?_⟩ fun t hmem => ?_
    · rw [Array.toList_push, List.map_append, List.pairwise_append]
      refine ⟨ht.starts, List.pairwise_singleton _ _, fun a ha b hmem => ?_⟩
      obtain ⟨t, htok, rfl⟩ := List.mem_map.1 ha
      rw [List.map_singleton, List.mem_singleton] at hmem
      exact hmem ▸ hb t htok
    · rw [Array.toList_push, List.mem_append, List.mem_singleton] at hmem
      rcases hmem with hmem | rfl
      · exact ht.braces t hmem
      · exact fun hlex => congrArg (o + ·) (hbrace hlex)
    · rw [Array.toList_push, List.mem_append, List.mem_singleton] at hmem
      rcases hmem with hmem | rfl
      · have := hb t hmem
        omega
      · exact Nat.lt_add_of_pos_right hpos

theorem ordered_ofText {text : String} {ts : List Token} (h : ofText text = .ok ts) :
    Ordered ts := by
  unfold ofText at h
  cases hs : scan #[] 0 text.toList with
  | error e => simp [hs, Except.map] at h
  | ok found =>
    rw [hs] at h
    cases h
    exact ordered_scan hs ⟨.nil, nofun⟩ nofun

end Token

/-! ### Statements -/

mutual

/-- Where the statement and those in it start, and where their blocks end, in the order of the
text. -/
def Stmt.offsets : Stmt → List Nat
  | .empty _ => []
  | .pause span | .declare span _ _ _ | .expr span _ => [span.start]
  | .block span body => span.start :: (bodyOffsets body ++ [span.stop - 1])

def bodyOffsets : List Stmt → List Nat
  | [] => []
  | s :: body => s.offsets ++ bodyOffsets body

end

namespace Tree

variable {stop : Nat}

theorem declaration_offsets {budget : Nat} {how : Declaration} {start : Span}
    {ts rest : List Token} {s : Stmt} (h : declaration stop budget how start ts = .ok (s, rest)) :
    s.offsets = [start.start] := by
  unfold declaration at h
  split at h
  · obtain ⟨⟨init, left⟩, _, h⟩ := bind_eq_ok.1 h
    obtain ⟨⟨last, left⟩, _, h⟩ := bind_eq_ok.1 h
    cases h
    rfl
  · simp [fail] at h

/-- A statement that is no block and not empty has the offset of its first token. -/
theorem simple_offsets {budget : Nat} {t : Token} {ts rest : List Token} {s : Stmt}
    (h : simple stop budget t ts = .ok (s, rest)) : s.offsets = [t.start] := by
  unfold simple at h
  split at h
  · obtain ⟨⟨last, left⟩, _, h⟩ := bind_eq_ok.1 h
    cases h
    rfl
  · exact declaration_offsets h
  · exact declaration_offsets h
  · obtain ⟨⟨value, left⟩, _, h⟩ := bind_eq_ok.1 h
    obtain ⟨⟨last, left⟩, _, h⟩ := bind_eq_ok.1 h
    cases h
    rfl

theorem simple_suffix {budget : Nat} {t : Token} {ts rest : List Token} {s : Stmt}
    (h : simple stop budget t ts = .ok (s, rest)) : rest <:+ ts := by
  obtain ⟨used, n, hts, -, -⟩ := Grammar.simple_derived h
  have hlen := simple_length h
  cases used with
  | nil =>
    have := congrArg List.length hts
    simp only [List.nil_append, List.length_cons] at this
    omega
  | cons u used =>
    obtain ⟨-, hts⟩ := List.cons_eq_cons.1 hts
    exact hts ▸ List.suffix_append used rest

mutual

theorem statement_offsets {budget : Nat} {t : Token} {ts : List Token} {s : Stmt}
    {rest : NotLonger ts} (h : statement stop budget t ts = .ok (s, rest))
    (hb : ∀ t ∈ ts, t.lexeme = .braceClose → t.span.stop = t.start + 1) :
    List.Sublist (s.offsets ++ rest.1.map Token.start) ((t :: ts).map Token.start) := by
  rw [statement.eq_def] at h
  split at h
  · cases h
    exact List.sublist_cons_self _ _
  · obtain ⟨⟨inner, hi⟩, _, h⟩ := bind_eq_ok.1 h
    obtain ⟨⟨body, left, hl⟩, hbody, h⟩ := bind_eq_ok.1 h
    have hsub := statements_offsets hbody hb
    obtain ⟨⟨used, n, hts, -, -⟩, hend⟩ := Grammar.statements_derived hbody
    dsimp only at h
    split at h
    · simp [fail] at h
    · rename_i close after _
      cases h
      -- the statements leave the brace that closes the block, and it is one byte wide
      have hmem : close ∈ ts := by
        have hts : ts = used ++ close :: after := hts
        rw [hts]
        simp
      have hstop : close.span.stop - 1 = close.start := by
        rw [hb close hmem (hend close rfl), Nat.add_sub_cancel]
      simp only [Stmt.offsets, Span.to, hstop, List.cons_append, List.append_assoc,
        List.nil_append, List.map_cons]
      exact hsub.cons_cons _
  · unfold bounded at h
    split at h
    · rename_i hs _
      cases h
      rw [simple_offsets hs]
      exact ((simple_suffix hs).sublist.map Token.start).cons_cons _
    · cases h
termination_by 2 * ts.length + 1

/-- The offsets of statements, and then those of the tokens left, are among those of the tokens. -/
theorem statements_offsets {budget : Nat} {ts : List Token} {body : List Stmt}
    {rest : NotLonger ts} (h : statements stop budget ts = .ok (body, rest))
    (hb : ∀ t ∈ ts, t.lexeme = .braceClose → t.span.stop = t.start + 1) :
    List.Sublist (bodyOffsets body ++ rest.1.map Token.start) (ts.map Token.start) := by
  rw [statements.eq_def] at h
  cases ts with
  | nil =>
    cases h
    exact List.Sublist.refl _
  | cons t tail =>
    dsimp only at h
    split at h
    · cases h
      exact List.Sublist.refl _
    · obtain ⟨⟨s, left, hl⟩, hs, h⟩ := bind_eq_ok.1 h
      obtain ⟨⟨more, after, ha⟩, hm, h⟩ := bind_eq_ok.1 h
      obtain ⟨used, n, hts, -, -⟩ := Grammar.statement_derived hs
      have hts : t :: tail = used ++ left := hts
      have hfirst := statement_offsets hs fun u hu => hb u (List.mem_cons_of_mem t hu)
      have hothers := statements_offsets hm fun u hu =>
        hb u (hts ▸ List.mem_append_right used hu)
      cases h
      rw [bodyOffsets, List.append_assoc]
      exact (hothers.append_left _).trans hfirst
termination_by 2 * ts.length
decreasing_by
  all_goals
    subst_vars
    simp only [List.length_cons]
    omega

end

/-- **The offsets of a tree ascend.** -/
theorem ofSource_offsets {source : Source} {body : List Stmt} (h : ofSource source = .ok body) :
    (bodyOffsets body).Pairwise (· < ·) := by
  unfold ofSource at h
  split at h
  · rename_i hb
    cases h
    obtain ⟨ts, hts, hb⟩ := bind_eq_ok.1 hb
    unfold ofTokens at hb
    obtain ⟨⟨found, left, hl⟩, hs, hb⟩ := bind_eq_ok.1 hb
    have hordered := Token.ordered_ofText hts
    have hsub := statements_offsets hs hordered.braces
    dsimp only at hb
    split at hb
    · cases hb
      rw [List.map_nil, List.append_nil] at hsub
      exact hordered.starts.sublist hsub
    · simp [fail] at hb
  · cases h

end Tree
end ScriptDebug
