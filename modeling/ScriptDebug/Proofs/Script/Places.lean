/-
# Where statements stand in the text

A token stands at its span: the text from its first byte on begins with it, and
it takes as many bytes as it says (`Token.standsIn_ofText`). A statement is read
from tokens that follow one another. It begins with the first of them, and a block
ends with its closing brace (`Stmt.ReadFrom`). So the first byte of a statement is
that of its first token, and the last byte of a block is its brace
(`Tree.ofSource_inText`).

Key definitions: `Token.StandsIn`, `Stmt.ReadFrom`, `BodyReadFrom`, `Stmt.InText`.
Key theorems: `Token.readLexeme_split`, `Token.standsIn_ofText`,
`Tree.statements_readFrom`, `Stmt.ReadFrom.inText`.
-/
import ScriptDebug.Proofs.Script.Order
import ScriptDebug.Proofs.Text.Runs

namespace ScriptDebug

/-! ### Tokens -/

theorem utf8Size_of_isAlphanum {c : Char} (h : c.isAlphanum = true) : c.utf8Size = 1 := by
  simp only [Char.isAlphanum, Char.isAlpha, Char.isUpper, Char.isLower, Char.isDigit,
    Bool.or_eq_true, Bool.and_eq_true, decide_eq_true_eq, UInt32.le_iff_toNat_le, ge_iff_le] at h
  have hZ : 'Z'.val.toNat = 90 := rfl
  have hz : 'z'.val.toNat = 122 := rfl
  have h9 : '9'.val.toNat = 57 := rfl
  rw [Char.utf8Size_eq_one_iff, UInt32.le_iff_toNat_le]
  show c.val.toNat ≤ 127
  omega

namespace Token

theorem utf8Size_of_continuesName {c : Char} (h : continuesName c = true) : c.utf8Size = 1 := by
  simp only [continuesName, Bool.or_eq_true, decide_eq_true_eq] at h
  rcases h with (h | rfl) | rfl
  · exact utf8Size_of_isAlphanum h
  · rfl
  · rfl

theorem utf8Size_of_startsName {c : Char} (h : startsName c = true) : c.utf8Size = 1 := by
  refine utf8Size_of_continuesName ?_
  simp only [startsName, continuesName, Char.isAlphanum, Bool.or_eq_true] at h ⊢
  tauto

theorem utf8Size_of_inNumber {c : Char} (h : inNumber c = true) : c.utf8Size = 1 := by
  simp only [inNumber, Bool.or_eq_true, decide_eq_true_eq] at h
  rcases h with h | rfl
  · exact utf8Size_of_isAlphanum (by simp [Char.isAlphanum, h])
  · rfl

theorem utf8Size_of_startsNumber {c : Char} {cs : List Char} (h : startsNumber c cs = true) :
    c.utf8Size = 1 := by
  refine utf8Size_of_inNumber ?_
  simp only [startsNumber, inNumber, Bool.or_eq_true, Bool.and_eq_true] at h ⊢
  tauto

theorem utf8Size_of_isSpace {c : Char} (h : isSpace c = true) : c.utf8Size = 1 := by
  simp only [isSpace, Bool.or_eq_true, decide_eq_true_eq] at h
  rcases h with (((rfl | rfl) | rfl) | rfl) | rfl <;> rfl

theorem utf8Size_of_withEquals? {c : Char} {l : Lexeme} (h : Lexeme.withEquals? c = some l) :
    c.utf8Size = 1 := by
  unfold Lexeme.withEquals? at h
  split_ifs at h <;> subst_vars <;> rfl

/-- A sign has one byte, and only the closing brace is read as one. -/
theorem sign_cases {c : Char} {l : Lexeme} (h : Lexeme.sign? c = some l) :
    c.utf8Size = 1 ∧ (l = .braceClose → c = '}') := by
  have hmem := mem_signs h
  simp only [List.mem_cons, List.not_mem_nil, or_false] at hmem
  rcases hmem with rfl | rfl | rfl | rfl | rfl | rfl | rfl | rfl | rfl | rfl | rfl | rfl | rfl |
    rfl <;> cases h <;> exact ⟨rfl, by simp⟩

/-- A run of characters of one byte is split off with as many bytes as characters. -/
theorem split_run {c : Char} {cs : List Char} {p : Char → Bool} (hc : c.utf8Size = 1)
    (hp : ∀ c, p c = true → c.utf8Size = 1) :
    ∃ used, c :: cs = used ++ cs.dropWhile p ∧
      Text.bytes used = (c :: cs.takeWhile p).length := by
  refine ⟨c :: cs.takeWhile p, by simp, Text.bytes_eq_length ?_⟩
  exact List.forall_mem_cons.2 ⟨hc, fun x hx => hp x (List.mem_takeWhile_imp hx)⟩

/-- What a string holds takes the bytes up to its closing quote. -/
theorem stringBody_split {quote : Char} (hq : quote.utf8Size = 1) {held : List Char} {width : Nat}
    {cs : List Char} {s : String} {w : Nat} {rest : List Char}
    (h : stringBody quote held width cs = some (s, w, rest)) :
    ∃ used, cs = used ++ rest ∧ w = width + Text.bytes used := by
  fun_induction stringBody quote held width cs with
  | case1 => cases h
  | case2 => cases h
  | case3 held width c cs ih =>
    obtain ⟨used, rfl, hw⟩ := ih h
    refine ⟨'\\' :: c :: used, rfl, ?_⟩
    have hslash : '\\'.utf8Size = 1 := rfl
    rw [hw, Text.bytes_cons, Text.bytes_cons, hslash]
    omega
  | case4 held width cs =>
    cases h
    refine ⟨[quote], rfl, ?_⟩
    rw [Text.bytes_cons, hq]
    rfl
  | case5 => cases h
  | case6 held width c cs _ _ _ _ ih =>
    obtain ⟨used, rfl, hw⟩ := ih h
    refine ⟨c :: used, rfl, ?_⟩
    rw [hw, Text.bytes_cons]
    omega

/-- A lexeme takes the characters before the text that is left, and says how many bytes they are. -/
theorem readLexeme_split {c : Char} {cs rest : List Char} {l : Lexeme} {width : Nat}
    (h : readLexeme c cs = .ok (l, width, rest)) :
    ∃ used, c :: cs = used ++ rest ∧ Text.bytes used = width := by
  cases readLexeme_eq_ok.1 h with
  | number hnumber =>
    exact split_run (utf8Size_of_startsNumber hnumber) fun _ => utf8Size_of_inNumber
  | string hquote hbody =>
    have hq : c.utf8Size = 1 := by rcases hquote with rfl | rfl <;> rfl
    obtain ⟨used, rfl, hw⟩ := stringBody_split hq hbody
    refine ⟨c :: used, rfl, ?_⟩
    rw [Text.bytes_cons, hq, hw]
    omega
  | word hname => exact split_run (utf8Size_of_startsName hname) fun _ => utf8Size_of_continuesName
  | pair hpair =>
    refine ⟨[c, '='], rfl, ?_⟩
    rw [Text.bytes_cons, utf8Size_of_withEquals? hpair]
    rfl
  | sign hsign =>
    refine ⟨[c], rfl, ?_⟩
    rw [Text.bytes_cons, (sign_cases hsign).1]
    rfl

/-- Only a closing brace is read as one. -/
theorem eq_of_readLexeme_braceClose {c : Char} {cs rest : List Char} {width : Nat}
    (h : readLexeme c cs = .ok (.braceClose, width, rest)) : c = '}' := by
  generalize hl : Lexeme.braceClose = l at h
  cases readLexeme_eq_ok.1 h with
  | number _ hread => exact absurd (hl ▸ hread) (numeral_ne_braceClose _)
  | string => cases hl
  | word => exact absurd hl.symm (ofWord_ne_braceClose _)
  | pair hpair => exact absurd (hl ▸ hpair) (withEquals?_ne_braceClose c)
  | sign hsign => exact (sign_cases hsign).2 hl.symm

/-- The text from the first byte of the token on begins with the token, which takes the bytes of its
span. -/
def StandsIn (text : List Char) (t : Token) : Prop :=
  ∃ before c cs rest, text = before ++ c :: cs ∧ Text.bytes before = t.start ∧
    readLexeme c cs = .ok (t.lexeme, t.span.stop - t.start, rest)

/-- The scanner has read what is before it, and its tokens stand there. -/
theorem standsIn_scan {text before : List Char} {tokens found : Array Token} {o : Nat}
    {cs : List Char} (h : scan tokens o cs = .ok found) (htext : text = before ++ cs)
    (ho : Text.bytes before = o) (ht : ∀ t ∈ tokens, t.StandsIn text) :
    ∀ t ∈ found, t.StandsIn text := by
  fun_induction scan tokens o cs generalizing before with
  | case1 tokens o =>
    cases h
    exact ht
  | case2 tokens o c cs hc ih =>
    have hread : text = (before ++ [c]) ++ cs := by simp [htext]
    refine ih h hread ?_ ht
    rw [Text.bytes_append, ho, Text.bytes_cons, utf8Size_of_isSpace hc]
    rfl
  | case3 tokens o c cs _ hc ih =>
    have hread : text = (before ++ c :: cs.takeWhile (· ≠ '\n')) ++ cs.dropWhile (· ≠ '\n') := by
      simp [htext]
    refine ih h hread ?_ ht
    rw [Text.bytes_append, ho, Text.bytes_cons, hc.1, Nat.add_assoc]
    rfl
  | case4 => cases h
  | case5 tokens o c cs _ _ l width rest hl ih =>
    obtain ⟨used, hused, hwidth⟩ := readLexeme_split hl
    have hread : text = (before ++ used) ++ rest := by simp [htext, hused]
    refine ih h hread ?_ fun t hmem => ?_
    · rw [Text.bytes_append, ho, hwidth]
    · rcases Array.mem_push.1 hmem with hmem | rfl
      · exact ht t hmem
      · refine ⟨before, c, cs, rest, htext, ho, ?_⟩
        have hspan : o + width - o = width := Nat.add_sub_cancel_left o width
        simpa [start, hspan] using hl

/-- **Every token stands in the text.** -/
theorem standsIn_ofText {text : String} {ts : List Token} (h : ofText text = .ok ts) :
    ∀ t ∈ ts, t.StandsIn text.toList := by
  unfold ofText at h
  cases hs : scan #[] 0 text.toList with
  | error e => simp [hs, Except.map] at h
  | ok found =>
    rw [hs] at h
    cases h
    have hread : text.toList = [] ++ text.toList := rfl
    intro t ht
    exact standsIn_scan hs hread rfl (by simp) t (by simpa using ht)

/-- A closing brace stands where its span ends. -/
theorem StandsIn.brace {text : List Char} {t : Token} (h : t.StandsIn text)
    (hl : t.lexeme = .braceClose) (hstop : t.span.stop = t.start + 1) :
    ∃ before after, text = before ++ '}' :: after ∧ Text.bytes before = t.span.stop - 1 := by
  obtain ⟨before, c, cs, rest, rfl, hb, hread⟩ := h
  rw [hl] at hread
  obtain rfl := eq_of_readLexeme_braceClose hread
  exact ⟨before, cs, rfl, by omega⟩

end Token

/-! ### Statements -/

mutual

/-- `s.ReadFrom ts`: the tokens `ts` are the statement, which begins with the first of them. A block
ends with the last of them, and its statements are read from those between. -/
inductive Stmt.ReadFrom : List Token → Stmt → Prop
  | empty {t : Token} : t.lexeme = .semicolon → Stmt.ReadFrom [t] (.empty t.span)
  | simple {n : Nat} {t : Token} {ts : List Token} {next : Option Lexeme} {s : Stmt} :
    Grammar.Statement n ((t :: ts).map Token.lexeme) next s → s.offsets = [t.start] →
    Stmt.ReadFrom (t :: ts) s
  | block {opening closing : Token} {ts : List Token} {body : List Stmt} :
    opening.lexeme = .braceOpen → BodyReadFrom ts body → closing.lexeme = .braceClose →
    Stmt.ReadFrom (opening :: (ts ++ [closing])) (.block (opening.span.to closing.span) body)

/-- The tokens are the statements one after the other. -/
inductive BodyReadFrom : List Token → List Stmt → Prop
  | nil : BodyReadFrom [] []
  | cons {ts us : List Token} {s : Stmt} {body : List Stmt} : s.ReadFrom ts →
    BodyReadFrom us body → BodyReadFrom (ts ++ us) (s :: body)

end

namespace Stmt

theorem start_of_offsets {s : Stmt} {o : Nat} (h : s.offsets = [o]) : s.span.start = o := by
  cases s with
  | empty => cases h
  | pause | declare | expr => exact List.head_eq_of_cons_eq h
  | block => simp [offsets] at h

/-- A statement starts with its first token. -/
theorem ReadFrom.start {ts : List Token} {s : Stmt} (h : s.ReadFrom ts) :
    ∃ t us, ts = t :: us ∧ s.span.start = t.start := by
  cases h with
  | empty _ => exact ⟨_, _, rfl, rfl⟩
  | simple _ ho => exact ⟨_, _, rfl, start_of_offsets ho⟩
  | block _ _ _ => exact ⟨_, _, rfl, rfl⟩

end Stmt

namespace Tree

variable {stop : Nat}

theorem simple_readFrom {budget : Nat} {t : Token} {ts rest : List Token} {s : Stmt}
    (h : simple stop budget t ts = .ok (s, rest)) :
    ∃ used, t :: ts = used ++ rest ∧ s.ReadFrom used := by
  obtain ⟨used, n, hts, -, hs⟩ := Grammar.simple_derived h
  have hlen := simple_length h
  cases used with
  | nil =>
    have := congrArg List.length hts
    simp only [List.nil_append, List.length_cons] at this
    omega
  | cons u used =>
    obtain ⟨rfl, -⟩ := List.cons_eq_cons.1 hts
    exact ⟨t :: used, hts, .simple hs (simple_offsets h)⟩

mutual

theorem statement_readFrom {budget : Nat} {t : Token} {ts : List Token} {s : Stmt}
    {rest : NotLonger ts} (h : statement stop budget t ts = .ok (s, rest)) :
    ∃ used, t :: ts = used ++ rest.1 ∧ s.ReadFrom used := by
  rw [statement.eq_def] at h
  split at h
  · rename_i ht
    cases h
    exact ⟨[t], rfl, .empty ht⟩
  · rename_i ht
    obtain ⟨⟨inner, hi⟩, _, h⟩ := bind_eq_ok.1 h
    obtain ⟨⟨body, left, hl⟩, hbody, h⟩ := bind_eq_ok.1 h
    obtain ⟨used, hts, hread⟩ := statements_readFrom hbody
    obtain ⟨-, hend⟩ := Grammar.statements_derived hbody
    dsimp only at h
    split at h
    · simp [fail] at h
    · rename_i close after _
      cases h
      have hts : ts = used ++ close :: after := hts
      have hclose : close.lexeme = .braceClose := hend close rfl
      exact ⟨t :: (used ++ [close]), by simp [← hts], .block ht hread hclose⟩
  · unfold bounded at h
    split at h
    · rename_i hs _
      cases h
      exact simple_readFrom hs
    · cases h
termination_by 2 * ts.length + 1

/-- Statements are read from the tokens that they take. -/
theorem statements_readFrom {budget : Nat} {ts : List Token} {body : List Stmt}
    {rest : NotLonger ts} (h : statements stop budget ts = .ok (body, rest)) :
    ∃ used, ts = used ++ rest.1 ∧ BodyReadFrom used body := by
  rw [statements.eq_def] at h
  cases ts with
  | nil =>
    cases h
    exact ⟨[], rfl, .nil⟩
  | cons t tail =>
    dsimp only at h
    split at h
    · cases h
      exact ⟨[], rfl, .nil⟩
    · obtain ⟨⟨s, left, hl⟩, hs, h⟩ := bind_eq_ok.1 h
      obtain ⟨⟨more, after, ha⟩, hm, h⟩ := bind_eq_ok.1 h
      obtain ⟨used, hts, hs⟩ := statement_readFrom hs
      obtain ⟨used', hleft, hmore⟩ := statements_readFrom hm
      cases h
      have hts : t :: tail = used ++ left := hts
      have hleft : left = used' ++ after := hleft
      refine ⟨used ++ used', ?_, .cons hs hmore⟩
      show t :: tail = used ++ used' ++ after
      rw [hts, hleft, List.append_assoc]
termination_by 2 * ts.length
decreasing_by
  all_goals
    subst_vars
    simp only [List.length_cons]
    omega

end

/-- **A tree is read from all tokens of its text.** -/
theorem ofSource_readFrom {source : Source} {body : List Stmt} (h : ofSource source = .ok body) :
    ∃ ts, Token.ofText source.text = .ok ts ∧ BodyReadFrom ts body := by
  unfold ofSource at h
  split at h
  · rename_i hb
    cases h
    obtain ⟨ts, hts, hb⟩ := bind_eq_ok.1 hb
    unfold ofTokens at hb
    obtain ⟨⟨found, left, hl⟩, hs, hb⟩ := bind_eq_ok.1 hb
    obtain ⟨used, hused, hread⟩ := statements_readFrom hs
    dsimp only at hb
    split at hb
    · cases hb
      refine ⟨ts, hts, ?_⟩
      have hused : ts = used ++ [] := hused
      rw [hused, List.append_nil]
      exact hread
    · simp [fail] at hb
  · cases h

end Tree

/-- The statement is read from tokens of the text one after the other. Its first byte is the first
byte of the first of them, and the last byte of a block is a closing brace. -/
structure Stmt.InText (text : String) (s : Stmt) : Prop where
  first : ∃ tokens t ts, Token.ofText text = .ok tokens ∧ t :: ts <:+: tokens ∧
    s.ReadFrom (t :: ts) ∧ t.StandsIn text.toList ∧ s.span.start = t.start
  brace : ∀ span body, s = .block span body → ∃ before after,
    text.toList = before ++ '}' :: after ∧ Text.bytes before = span.stop - 1

/-- **What is read from tokens of a text stands where its span says.** -/
theorem Stmt.ReadFrom.inText {text : String} {tokens ts : List Token} {s : Stmt}
    (h : s.ReadFrom ts) (htext : Token.ofText text = .ok tokens) (hts : ts <:+: tokens) :
    s.InText text := by
  have hstands (t : Token) (ht : t ∈ ts) : t.StandsIn text.toList :=
    Token.standsIn_ofText htext t (hts.subset ht)
  refine ⟨?_, ?_⟩
  · obtain ⟨t, us, rfl, hstart⟩ := h.start
    exact ⟨tokens, t, us, htext, hts, h, hstands t List.mem_cons_self, hstart⟩
  · rintro span body rfl
    cases h with
    | simple _ ho => simp [Stmt.offsets] at ho
    | @block opening closing inner _ _ _ hclose =>
      have hmem : closing ∈ opening :: (inner ++ [closing]) := by simp
      have hstop := (Token.ordered_ofText htext).braces closing (hts.subset hmem) hclose
      exact (hstands closing hmem).brace hclose hstop

end ScriptDebug
