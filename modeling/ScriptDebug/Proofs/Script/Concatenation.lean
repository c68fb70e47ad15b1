/-
# One text after another

A text that is read, and ends with a semicolon or a closing brace, does not change
how a text is read that comes after it on lines of its own: the statements of the
first one come first, and what is read of the second one is what is read of it
alone, with its spans moved; or the same problem is found in the same column, as
many lines further down as the first text has (`concatenation_read`). So nothing
of the budget of nesting is lost when statements have been read, however deeply
they were nested.

Key definitions: `Tree.Closed`.
Key theorems: `Tree.readBody_append`, `Tree.ofTokens_append`, `Source.lineCol_append`,
`concatenation_read`.
-/
import ScriptDebug.Proofs.Program.Lines
import ScriptDebug.Proofs.Script.Shift

namespace ScriptDebug

/-! ### More tokens after those of statements -/

/-- The lexemes that end a statement on their own. -/
def Lexeme.Closing (l : Lexeme) : Prop := l = .semicolon ∨ l = .braceClose

/-- No expression has such a lexeme in it. -/
theorem Grammar.Derives.not_closing {f : Form} {n : Nat} {ls : List Lexeme} {e : Expr}
    (h : Derives f n ls e) : ∀ l ∈ ls, ¬ l.Closing := by
  induction h with
  | value _ ih | first _ ih | inner _ _ ih | tightest _ ih | primary _ ih => exact ih
  | assign _ _ ih ih' =>
    refine List.forall_mem_append.2 ⟨ih, List.forall_mem_cons.2 ⟨?_, ih'⟩⟩
    simp [Lexeme.Closing]
  | @fold op _ _ _ _ _ _ _ _ _ ih ih' =>
    refine List.forall_mem_append.2 ⟨ih, List.forall_mem_cons.2 ⟨?_, ih'⟩⟩
    cases op <;> simp [Lexeme.Closing, BinaryOp.sign]
  | @unary op _ _ _ _ ih =>
    refine List.forall_mem_cons.2 ⟨?_, ih⟩
    cases op <;> simp [Lexeme.Closing, UnaryOp.sign]
  | atom ha =>
    refine List.forall_mem_singleton.2 ?_
    cases ha <;> simp [Lexeme.Closing]
  | parens _ ih =>
    refine List.forall_mem_cons.2 ⟨?_, List.forall_mem_append.2 ⟨ih, List.forall_mem_singleton.2 ?_⟩⟩
    · simp [Lexeme.Closing]
    · simp [Lexeme.Closing]

namespace Tree

/-- The tokens end with a semicolon or a closing brace, if there are any. -/
def Closed (ts : List Token) : Prop := ∀ t ∈ ts.getLast?, t.lexeme.Closing

theorem Closed.of_append {us ts : List Token} (h : Closed (us ++ ts)) : Closed ts := by
  intro t ht
  refine h t ?_
  rw [List.getLast?_append, ht, Option.some_or]
  rfl

/-- Something is left when no token that ends a statement was taken yet. -/
theorem ne_nil_of_closed (us : List Token) {left : List Token} (hne : us ≠ [])
    (hus : ∀ u ∈ us, ¬ u.lexeme.Closing) (h : left = [] → Closed (us ++ left)) : left ≠ [] := by
  rintro rfl
  have hlast := h rfl (us.getLast hne) (by simp [List.getLast?_eq_some_getLast hne])
  exact hus _ (List.getLast_mem hne) hlast

variable {stop budget : Nat} {t : Token} {ts rest : List Token}

theorem assignment_append {e : Expr} (h : assignment stop budget ts = .ok (e, rest)) (stop' : Nat)
    {more : List Token} (hend : Grammar.Ended (rest ++ more)) :
    assignment stop' budget (ts ++ more) = .ok (e, rest ++ more) := by
  obtain ⟨used, n, rfl, hn, hderives⟩ := Grammar.assignment_derived h
  rw [List.append_assoc]
  exact Grammar.reads_of_derives stop' hderives budget used (rest ++ more) hn rfl hend

theorem ended_of_closing (ht : t.lexeme.Closing) (ts : List Token) : Grammar.Ended (t :: ts) := by
  intro u hu
  obtain rfl := Option.some.inj hu
  exact ht.imp_right Or.inl

/-- A statement that ended before the end of a text ends there in a longer one. -/
theorem terminator_append {span : Span} (h : terminator stop ts = .ok (span, rest)) (hts : ts ≠ [])
    (stop' : Nat) (more : List Token) :
    terminator stop' (ts ++ more) = .ok (span, rest ++ more) ∧ Grammar.Ended (ts ++ more) := by
  obtain ⟨t, ts, rfl⟩ := List.exists_cons_of_ne_nil hts
  unfold terminator at h
  dsimp only at h
  split at h
  · rename_i ht
    cases h
    exact ⟨by simp only [terminator, List.cons_append, ht], ended_of_closing (Or.inl ht) _⟩
  · rename_i ht
    cases h
    exact ⟨by simp only [terminator, List.cons_append, ht], ended_of_closing (Or.inr ht) _⟩
  · simp [fail] at h

theorem initialiser_append {init : Option Expr}
    (h : initialiser stop budget ts = .ok (init, rest)) (stop' : Nat)
    {more : List Token} (hrest : rest ≠ []) (hend : Grammar.Ended (rest ++ more)) :
    initialiser stop' budget (ts ++ more) = .ok (init, rest ++ more) := by
  unfold initialiser at h
  split at h
  · obtain ⟨⟨value, left⟩, hvalue, h⟩ := bind_eq_ok.1 h
    cases h
    rw [List.cons_append, initialiser, assignment_append hvalue stop' hend]
    rfl
  · cases h
    obtain ⟨⟨lexeme, span⟩, rest, rfl⟩ := List.exists_cons_of_ne_nil hrest
    rcases hend _ rfl with hl | hl | hl <;> cases hl <;> rfl

/-- What `initialiser` takes has no closing lexeme in it. -/
theorem initialiser_not_closing {init : Option Expr}
    (h : initialiser stop budget ts = .ok (init, rest)) :
    ∃ used, ts = used ++ rest ∧ ∀ u ∈ used, ¬ u.lexeme.Closing := by
  unfold initialiser at h
  split at h
  · rename_i sign after
    obtain ⟨⟨value, left⟩, hvalue, h⟩ := bind_eq_ok.1 h
    cases h
    obtain ⟨used, n, rfl, -, hderives⟩ := Grammar.assignment_derived hvalue
    refine ⟨⟨.assign, sign⟩ :: used, rfl, List.forall_mem_cons.2 ⟨?_, fun u hu => ?_⟩⟩
    · simp [Lexeme.Closing]
    · exact hderives.not_closing _ (List.mem_map_of_mem hu)
  · cases h
    exact ⟨[], rfl, List.forall_mem_nil _⟩

theorem terminator_nil {span : Span} (h : terminator stop [] = .ok (span, rest)) : rest = [] := by
  cases h
  rfl

theorem declaration_append {how : Declaration} {s : Stmt} (ht : ¬ t.lexeme.Closing)
    (h : declaration stop budget how t.span ts = .ok (s, rest))
    (hclosed : rest = [] → Closed (t :: ts)) (stop' : Nat) (more : List Token) :
    declaration stop' budget how t.span (ts ++ more) = .ok (s, rest ++ more) := by
  unfold declaration at h
  split at h
  · rename_i x span after
    obtain ⟨⟨init, left⟩, hinit, h⟩ := bind_eq_ok.1 h
    obtain ⟨⟨last, left'⟩, hlast, h⟩ := bind_eq_ok.1 h
    cases h
    obtain ⟨used, rfl, hused⟩ := initialiser_not_closing hinit
    have hleft : left ≠ [] := by
      refine ne_nil_of_closed (t :: ⟨.name x, span⟩ :: used) (List.cons_ne_nil _ _)
        (List.forall_mem_cons.2 ⟨ht, List.forall_mem_cons.2 ⟨by simp [Lexeme.Closing], hused⟩⟩) ?_
      rintro rfl
      exact hclosed (terminator_nil hlast)
    obtain ⟨hlast, hend⟩ := terminator_append hlast hleft stop' more
    rw [List.cons_append, declaration, initialiser_append hinit stop' hleft hend]
    show (terminator stop' (left ++ more) >>= _) = _
    rw [hlast]
    rfl
  · simp [fail] at h

theorem simple_append {s : Stmt} (h : simple stop budget t ts = .ok (s, rest))
    (hclosed : rest = [] → Closed (t :: ts)) (stop' : Nat) (more : List Token) :
    simple stop' budget t (ts ++ more) = .ok (s, rest ++ more) := by
  unfold simple at h ⊢
  split at h
  · rename_i ht
    obtain ⟨⟨last, left⟩, hlast, h⟩ := bind_eq_ok.1 h
    cases h
    have hts : ts ≠ [] := by
      refine ne_nil_of_closed [t] (List.cons_ne_nil _ _)
        (List.forall_mem_singleton.2 (by simp [Lexeme.Closing, ht])) ?_
      rintro rfl
      exact hclosed (terminator_nil hlast)
    rw [(terminator_append hlast hts stop' more).1]
    rfl
  · rename_i ht
    exact declaration_append (by simp [Lexeme.Closing, ht]) h hclosed stop' more
  · rename_i ht
    exact declaration_append (by simp [Lexeme.Closing, ht]) h hclosed stop' more
  · obtain ⟨⟨value, left⟩, hvalue, h⟩ := bind_eq_ok.1 h
    obtain ⟨⟨last, left'⟩, hlast, h⟩ := bind_eq_ok.1 h
    cases h
    obtain ⟨used, n, hused, -, hderives⟩ := Grammar.assignment_derived hvalue
    have hleft : left ≠ [] := by
      obtain ⟨l, ls, hl, -⟩ := Grammar.exists_cons_of_derives hderives
      refine ne_nil_of_closed used (by rintro rfl; cases hl)
        (fun u hu => hderives.not_closing _ (List.mem_map_of_mem hu)) ?_
      rintro rfl
      exact hused ▸ hclosed (terminator_nil hlast)
    obtain ⟨hlast, hend⟩ := terminator_append hlast hleft stop' more
    rw [← List.cons_append, assignment_append hvalue stop' hend]
    show (terminator stop' (left ++ more) >>= _) = _
    rw [hlast]
    rfl

theorem descend_of_ok {offset : Nat} {inner : { b : Nat // b < budget }}
    (h : descend budget offset = .ok inner) (offset' : Nat) :
    descend budget offset' = .ok inner := by
  cases budget with
  | zero => simp [descend, fail] at h
  | succ b => exact h

theorem head_of_readBody {body : List Stmt} (h : readBody stop budget ts = .ok (body, rest)) :
    ∀ u ∈ rest.head?, u.lexeme = .braceClose := by
  obtain ⟨hle, h⟩ := unbounded_eq_ok h
  exact (Grammar.statements_derived h).2

theorem readStmt_split {s : Stmt} (h : readStmt stop budget t ts = .ok (s, rest)) :
    ∃ used, t :: ts = used ++ rest := by
  obtain ⟨hle, h⟩ := unbounded_eq_ok h
  obtain ⟨used, -, hused, -⟩ := Grammar.statement_derived h
  exact ⟨used, hused⟩

theorem map_nil_append (r : Except Misread (List Stmt × List Token)) :
    r.map (fun r => ([] ++ r.1, r.2)) = r := by
  cases r <;> rfl

mutual

theorem readStmt_append {budget : Nat} {t : Token} {ts rest : List Token} {s : Stmt}
    (h : readStmt stop budget t ts = .ok (s, rest))
    (hclosed : rest = [] → Closed (t :: ts)) (stop' : Nat) (more : List Token) :
    readStmt stop' budget t (ts ++ more) = .ok (s, rest ++ more) := by
  by_cases hsemi : t.lexeme = .semicolon
  · rw [readStmt_semicolon _ _ hsemi] at h ⊢
    cases h
    rfl
  by_cases hopen : t.lexeme = .braceOpen
  · rw [readStmt_open _ _ hopen] at h ⊢
    obtain ⟨inner, hinner, h⟩ := bind_eq_ok.1 h
    obtain ⟨⟨body, left⟩, hbody, h⟩ := bind_eq_ok.1 h
    cases left with
    | nil => simp [fail] at h
    | cons close left =>
      cases h
      have hclose : close.lexeme = .braceClose := head_of_readBody hbody close rfl
      have hread := readBody_append hbody (fun hnil => nomatch hnil) stop' more
      rw [List.cons_append, readBody_close _ _ hclose] at hread
      rw [descend_of_ok hinner]
      show (readBody stop' inner (ts ++ more) >>= _) = _
      rw [hread]
      show Except.ok (Stmt.block _ (body ++ []), _) = _
      rw [List.append_nil]
  · rw [readStmt_simple _ _ hsemi hopen] at h ⊢
    exact simple_append h hclosed stop' more
termination_by 2 * ts.length + 1

/-- **Statements are read as before where more tokens come after them**, and the reader goes on
behind them with all of its budget. -/
theorem readBody_append {budget : Nat} {ts rest : List Token} {body : List Stmt}
    (h : readBody stop budget ts = .ok (body, rest)) (hclosed : rest = [] → Closed ts)
    (stop' : Nat) (more : List Token) :
    readBody stop' budget (ts ++ more) =
      (readBody stop' budget (rest ++ more)).map fun r => (body ++ r.1, r.2) := by
  cases ts with
  | nil =>
    rw [readBody_nil] at h
    cases h
    exact (map_nil_append _).symm
  | cons t ts =>
    by_cases hclose : t.lexeme = .braceClose
    · rw [readBody_close _ _ hclose] at h
      cases h
      exact (map_nil_append _).symm
    · rw [readBody_cons _ _ hclose] at h
      obtain ⟨⟨s, left⟩, hs, h⟩ := bind_eq_ok.1 h
      obtain ⟨⟨others, left'⟩, hothers, h⟩ := bind_eq_ok.1 h
      cases h
      obtain ⟨used, hused⟩ := readStmt_split hs
      have hlength := readStmt_length hs
      have hfirst : left = [] → Closed (t :: ts) := by
        rintro rfl
        rw [readBody_nil] at hothers
        cases hothers
        exact hclosed rfl
      have hleft : left' = [] → Closed left := fun hnil => by
        have h := hclosed hnil
        rw [hused] at h
        exact h.of_append
      have hread := readBody_append hothers hleft stop' more
      rw [List.cons_append, readBody_cons _ _ hclose, readStmt_append hs hfirst stop' more]
      show (readBody stop' budget (left ++ more) >>= _) = _
      rw [hread]
      cases readBody stop' budget (left' ++ more) <;> rfl
termination_by 2 * ts.length
decreasing_by
  all_goals
    subst_vars
    simp only [List.length_cons]
    omega

end

/-- **A whole text is read before what comes after it.** -/
theorem ofTokens_append {body : List Stmt} (h : ofTokens stop ts = .ok body) (hclosed : Closed ts)
    (stop' : Nat) (more : List Token) :
    ofTokens stop' (ts ++ more) = (ofTokens stop' more).map (body ++ ·) := by
  rw [ofTokens_eq] at h
  obtain ⟨⟨found, left⟩, hread, h⟩ := bind_eq_ok.1 h
  cases left with
  | cons t left => simp [fail] at h
  | nil =>
    cases h
    rw [ofTokens_eq, ofTokens_eq, readBody_append hread (fun _ => hclosed) stop' more,
      List.nil_append]
    cases readBody stop' maxNesting more with
    | error m => rfl
    | ok r =>
      obtain ⟨others, left⟩ := r
      cases left <;> rfl

end Tree

/-! ### More text after a text -/

/-- The tokens of the second text come after those of the first one, moved behind the line feed. -/
theorem Token.ofText_append {a : String} {ts : List Token} (h : Token.ofText a = .ok ts)
    (b : String) :
    Token.ofText (a ++ "\n" ++ b) =
      match Token.ofText b with
      | .ok us => .ok (ts ++ us.map (Token.shift (a.utf8ByteSize + 1)))
      | .error m => .error (m.shift (a.utf8ByteSize + 1)) := by
  unfold Token.ofText at h ⊢
  cases hs : Token.scan #[] 0 a.toList with
  | error m =>
    rw [hs] at h
    cases h
  | ok found =>
    rw [hs] at h
    cases h
    have htext : (a ++ "\n" ++ b).toList = a.toList ++ '\n' :: b.toList := by simp
    have hscan := Token.scan_append hs b.toList
    have hshift := Token.scan_shift (a.utf8ByteSize + 1) found #[] 0 b.toList
    rw [Array.map_empty, Array.append_empty] at hshift
    rw [← Text.utf8ByteSize_eq, Nat.add_assoc] at hscan
    rw [htext, hscan, hshift]
    cases Token.scan #[] 0 b.toList with
    | error m => rfl
    | ok found' =>
      show Except.ok (found ++ found'.map _).toList = _
      rw [Array.toList_append, Array.toList_map]
      rfl

/-! ### Lines -/

/-- A table whose first entries are all counted, and whose others are those of another one moved. -/
theorem Search.count_behind {key key' : Nat → Nat} {n m k x : Nat}
    (mono' : ∀ i j, i ≤ j → j < n + m → key' i ≤ key' j)
    (mono : ∀ i j, i ≤ j → j < m → key i ≤ key j) (hfirst : ∀ i < n, key' i ≤ x + k)
    (hothers : ∀ j < m, key' (n + j) = key j + k) :
    count key' (x + k) (n + m) = n + count key x m := by
  have hle : count key x m ≤ m := count_le x
  refine eq_of_forall_lt_iff fun i => ?_
  by_cases hi : i < n + m
  · rw [lt_count_iff mono' hi]
    by_cases hin : i < n
    · exact iff_of_true (hfirst i hin) (by omega)
    · obtain ⟨j, rfl⟩ : ∃ j, i = n + j := ⟨i - n, by omega⟩
      have hj : j < m := by omega
      rw [hothers j hj, Nat.add_le_add_iff_right, Nat.add_lt_add_iff_left, lt_count_iff mono hj]
  · have hle' : count key' (x + k) (n + m) ≤ n + m := count_le (x + k)
    exact iff_of_false (by omega) (by omega)

theorem lineStarts_append (starts : Array Nat) (o : Nat) (cs ds : List Char) :
    lineStarts starts o (cs ++ ds) = lineStarts (lineStarts starts o cs) (o + Text.bytes cs) ds := by
  induction cs generalizing starts o with
  | nil => rfl
  | cons c cs ih =>
    rw [List.cons_append, lineStarts, lineStarts, ih, Text.bytes_cons, Nat.add_assoc]

theorem lineStarts_shift (k : Nat) (first starts : Array Nat) (o : Nat) (cs : List Char) :
    lineStarts (first ++ starts.map (· + k)) (o + k) cs =
      first ++ (lineStarts starts o cs).map (· + k) := by
  induction cs generalizing starts o with
  | nil => rfl
  | cons c cs ih =>
    rw [lineStarts, lineStarts, Nat.add_right_comm]
    split
    · rw [← ih, Array.map_push, Array.append_push]
    · exact ih starts _

theorem size_lineStarts (starts : Array Nat) (o : Nat) (cs : List Char) :
    (lineStarts starts o cs).size = starts.size + cs.count '\n' := by
  induction cs generalizing starts o with
  | nil => rfl
  | cons c cs ih =>
    rw [lineStarts, ih]
    by_cases hc : c = '\n'
    · rw [if_pos hc, Array.size_push, hc, List.count_cons_self]
      omega
    · rw [if_neg hc, List.count_cons_of_ne hc]

namespace Source

theorem size_starts (name a : String) :
    (ofText name a).starts.size = a.toList.count '\n' + 1 := by
  show (lineStarts #[0] 0 a.toList).size = _
  rw [size_lineStarts, Nat.add_comm]
  rfl

theorem starts_append (name a b : String) :
    (ofText name (a ++ "\n" ++ b)).starts =
      (ofText name a).starts ++ (ofText name b).starts.map (· + (a.utf8ByteSize + 1)) := by
  have htext : (a ++ "\n" ++ b).toList = a.toList ++ '\n' :: b.toList := by simp
  show lineStarts #[0] 0 (a ++ "\n" ++ b).toList =
    lineStarts #[0] 0 a.toList ++ (lineStarts #[0] 0 b.toList).map (· + (a.utf8ByteSize + 1))
  rw [← lineStarts_shift, htext, lineStarts_append, lineStarts, ← Text.utf8ByteSize_eq, Nat.add_assoc]
  show lineStarts ((lineStarts #[0] 0 a.toList).push (0 + (a.utf8ByteSize + 1))) _ _ = _
  rw [← Array.append_singleton, Array.map_singleton]
  rfl

/-- **A place in the second text is in the same column**, as many lines further down as the first text
and the line feed have. -/
theorem lineCol_append (name a b : String) (o : Nat) :
    (ofText name (a ++ "\n" ++ b)).lineCol (o + (a.utf8ByteSize + 1)) =
      ⟨((ofText name b).lineCol o).line + (a.toList.count '\n' + 1),
        ((ofText name b).lineCol o).column⟩ := by
  have hstarts := starts_append name a b
  have hsize : (ofText name (a ++ "\n" ++ b)).starts.size =
      (ofText name a).starts.size + (ofText name b).starts.size := by
    rw [hstarts, Array.size_append, Array.size_map]
  have hothers (j : Nat) (hj : j < (ofText name b).starts.size) :
      (ofText name (a ++ "\n" ++ b)).starts.getD ((ofText name a).starts.size + j) 0 =
        (ofText name b).starts.getD j 0 + (a.utf8ByteSize + 1) := by
    rw [hstarts]
    simp [Array.getD_eq_getD_getElem?, hj]
  have hmono (i j : Nat) (hij : i ≤ j) (hj : j < (ofText name b).starts.size) :=
    (ofText name b).starts_mono hij hj
  have hmono' (i j : Nat) (hij : i ≤ j)
      (hj : j < (ofText name a).starts.size + (ofText name b).starts.size) :=
    (ofText name (a ++ "\n" ++ b)).starts_mono hij (hsize ▸ hj)
  obtain ⟨hsome, hzero⟩ := (ofText name b).starts_zero
  have hfirst (i : Nat) (hi : i < (ofText name a).starts.size) :
      (ofText name (a ++ "\n" ++ b)).starts.getD i 0 ≤ o + (a.utf8ByteSize + 1) := by
    have hle := hmono' i ((ofText name a).starts.size + 0) (by omega) (by omega)
    rw [hothers 0 hsome, hzero] at hle
    omega
  have hcount := Search.count_behind hmono' hmono hfirst hothers
  have hline : ((ofText name (a ++ "\n" ++ b)).lineCol (o + (a.utf8ByteSize + 1))).line =
      (ofText name a).starts.size + ((ofText name b).lineCol o).line := by
    show Search.count _ _ (ofText name (a ++ "\n" ++ b)).starts.size = _
    rw [hsize]
    exact hcount
  have hcolumn : ((ofText name (a ++ "\n" ++ b)).lineCol (o + (a.utf8ByteSize + 1))).column =
      ((ofText name b).lineCol o).column := by
    have hpos := (ofText name b).line_pos o
    have hle : ((ofText name b).lineCol o).line ≤ (ofText name b).starts.size := Search.count_le o
    have hbefore : (ofText name a).starts.size + ((ofText name b).lineCol o).line - 1 =
        (ofText name a).starts.size + (((ofText name b).lineCol o).line - 1) := by omega
    show o + (a.utf8ByteSize + 1) - (ofText name (a ++ "\n" ++ b)).starts.getD
        (((ofText name (a ++ "\n" ++ b)).lineCol (o + (a.utf8ByteSize + 1))).line - 1) 0 + 1 =
      o - (ofText name b).starts.getD (((ofText name b).lineCol o).line - 1) 0 + 1
    rw [hline, hbefore, hothers _ (by omega)]
    omega
  rw [size_starts, Nat.add_comm (_ + 1)] at hline
  rw [← hline, ← hcolumn]

end Source

/-- What is read of two texts is what is read of the first one and then, moved, of the second one. -/
theorem Tree.read_append {a : String} {ts : List Token} {body : List Stmt}
    (hts : Token.ofText a = .ok ts) (hbody : ofTokens a.utf8ByteSize ts = .ok body)
    (hclosed : Closed ts) (b : String) :
    (Token.ofText (a ++ "\n" ++ b) >>= ofTokens (a ++ "\n" ++ b).utf8ByteSize) =
      match Token.ofText b >>= ofTokens b.utf8ByteSize with
      | .ok more => .ok (body ++ shiftBody (a.utf8ByteSize + 1) more)
      | .error m => .error (m.shift (a.utf8ByteSize + 1)) := by
  have hsize : (a ++ "\n" ++ b).utf8ByteSize = b.utf8ByteSize + (a.utf8ByteSize + 1) := by
    rw [String.utf8ByteSize_append, String.utf8ByteSize_append, Nat.add_comm]
    rfl
  rw [Token.ofText_append hts]
  cases Token.ofText b with
  | error m => rfl
  | ok us =>
    show ofTokens _ (ts ++ us.map (Token.shift (a.utf8ByteSize + 1))) =
      match ofTokens b.utf8ByteSize us with
      | .ok more => .ok (body ++ shiftBody (a.utf8ByteSize + 1) more)
      | .error m => .error (m.shift (a.utf8ByteSize + 1))
    rw [ofTokens_append hbody hclosed, hsize, ofTokens_shift]
    cases ofTokens b.utf8ByteSize us <;> rfl

/-- **A text is read the same after another one that is read and closed**: the statements of the one
come first, then those of the other with their spans moved; or the same problem is found in the same
column, further down by the lines of the first text. -/
theorem concatenation_read {name a : String} {ts : List Token} {body : List Stmt}
    (hts : Token.ofText a = .ok ts) (ha : Tree.ofSource (.ofText name a) = .ok body)
    (hclosed : Tree.Closed ts) (b : String) :
    (∀ more, Tree.ofSource (.ofText name b) = .ok more →
      Tree.ofSource (.ofText name (a ++ "\n" ++ b)) =
        .ok (body ++ shiftBody (a.utf8ByteSize + 1) more)) ∧
    ∀ e, Tree.ofSource (.ofText name b) = .error e →
      Tree.ofSource (.ofText name (a ++ "\n" ++ b)) =
        .error { e with place := ⟨e.place.line + (a.toList.count '\n' + 1), e.place.column⟩ } := by
  have hbody : Tree.ofTokens a.utf8ByteSize ts = .ok body := by
    unfold Tree.ofSource at ha
    split at ha
    · rename_i hread
      cases ha
      obtain ⟨ts', hts', hbody⟩ := Tree.bind_eq_ok.1 hread
      cases hts.symm.trans hts'
      exact hbody
    · cases ha
  have hsource (text : String) : Tree.ofSource (.ofText name text) =
      match Token.ofText text >>= Tree.ofTokens text.utf8ByteSize with
      | .ok body => .ok body
      | .error m => .error ((Source.ofText name text).locate m) := rfl
  rw [hsource b, hsource (a ++ "\n" ++ b), Tree.read_append hts hbody hclosed b]
  cases Token.ofText b >>= Tree.ofTokens b.utf8ByteSize with
  | ok more =>
    refine ⟨fun more' h => ?_, nofun⟩
    cases h
    rfl
  | error m =>
    refine ⟨nofun, fun e h => ?_⟩
    cases h
    have hplace := Source.lineCol_append name a b m.offset
    show Except.error (SyntaxError.mk m.problem name (Source.lineCol _ (m.offset + _))) = _
    rw [hplace]
    rfl

/-- A block and a comment with a parenthesis in it, and then a declaration whose name is missing where
the text ends. -/
theorem unfinished_declaration_after_block :
    Tree.ofSource (.ofText "s" "\x7b 'é' \x7d\n// (\nlet x = y; var ") =
      .error ⟨.expectedName, "s", ⟨3, 15⟩⟩ := by
  have hts : Token.ofText "\x7b 'é' \x7d\n// (" =
      .ok [⟨.braceOpen, ⟨0, 1⟩⟩, ⟨.string "é", ⟨2, 6⟩⟩, ⟨.braceClose, ⟨7, 8⟩⟩] := by cbv
  have hbody : Tree.ofSource (.ofText "s" "\x7b 'é' \x7d\n// (") =
      .ok [.block ⟨0, 8⟩ [.expr ⟨2, 8⟩ (.string "é")]] := by cbv
  have hclosed : Tree.Closed
      [⟨.braceOpen, ⟨0, 1⟩⟩, ⟨.string "é", ⟨2, 6⟩⟩, ⟨.braceClose, ⟨7, 8⟩⟩] := by
    simp [Tree.Closed, Lexeme.Closing]
  have hsecond : Tree.ofSource (.ofText "s" "let x = y; var ") =
      .error ⟨.expectedName, "s", ⟨1, 15⟩⟩ := by cbv
  exact (concatenation_read hts hbody hclosed "let x = y; var ").2 _ hsecond

end ScriptDebug
