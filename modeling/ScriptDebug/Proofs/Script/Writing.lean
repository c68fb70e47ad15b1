/-
# Writing a tree and reading it

The text of a tree has its lexemes one after the other, with a gap between any two
of them: a character of white space, and then white space and comments as one likes.
A string has quotes of either kind around it, and a backslash before what would end
it or the line. Which quotes and which gaps is a matter of style (`Style`).

A lexeme with a gap or nothing after it is read as itself (`Token.readsAs_written`),
so the tokens of the text are those of the tree, and the reader finds the tree again
(`read_printed`). Of the numbers in the tree it is required that their texts
are read as them.

Key definitions: `Lexeme.written`, `Lexeme.Writable`, `Token.Gap`, `Style`, `Style.print`.
Key theorems: `Token.stringBody_escaped`, `Token.readsAs_written`, `Token.ofText_write`,
`read_printed`.
-/
import ScriptDebug.Proofs.Number.Text
import ScriptDebug.Proofs.Script.Acceptance
import ScriptDebug.Proofs.Script.Locality
import ScriptDebug.Proofs.Script.Printing

namespace ScriptDebug

/-! ### Lexemes as they are written -/

namespace Token

def IsQuote (c : Char) : Prop := c = '"' ∨ c = '\''

/-- What stands for a character between two quotes. -/
def escape (quote c : Char) : List Char :=
  if c = '\\' ∨ c = quote then ['\\', c] else if c = '\n' then ['\\', 'n'] else [c]

def escaped (quote : Char) (cs : List Char) : List Char := cs.flatMap (escape quote)

/-- The characters of names and of reserved words. -/
def IsWord (word : String) : Prop :=
  ∃ c cs, word.toList = c :: cs ∧ startsName c = true ∧ ∀ d ∈ cs, continuesName d = true

end Token

namespace Lexeme

/-- How a lexeme is written, a string between two of the character `quote`. -/
def written (quote : Char) : Lexeme → List Char
  | .number x => (Number.text x).toList
  | .string s => quote :: (Token.escaped quote s.toList ++ [quote])
  | .name x => x.toList
  | .kwLet => "let".toList
  | .kwVar => "var".toList
  | .kwDebugger => "debugger".toList
  | .kwThis => "this".toList
  | .kwTrue => "true".toList
  | .kwFalse => "false".toList
  | .kwNull => "null".toList
  | .kwUndefined => "undefined".toList
  | .parenOpen => ['(']
  | .parenClose => [')']
  | .braceOpen => ['{']
  | .braceClose => ['}']
  | .semicolon => [';']
  | .assign => ['=']
  | .plus => ['+']
  | .minus => ['-']
  | .star => ['*']
  | .slash => ['/']
  | .percent => ['%']
  | .bang => ['!']
  | .eqEq => ['=', '=']
  | .notEq => ['!', '=']
  | .lt => ['<']
  | .le => ['<', '=']
  | .gt => ['>']
  | .ge => ['>', '=']

/-- A number has to be read back from its text, and a name has to be a word that is not reserved. -/
def Writable : Lexeme → Prop
  | .number x => Number.ReadsBack x
  | .name x => Token.IsWord x ∧ keyword? x = none
  | _ => True

end Lexeme

/-! ### Reading one lexeme -/

namespace Token

/-- The text `cs` is read as the lexeme `l` where it ends or white space comes next, and it is no
white space and no comment itself. -/
def ReadsAs (l : Lexeme) (cs : List Char) : Prop :=
  ∃ c more, cs = c :: more ∧ isSpace c = false ∧
    ∀ rest : List Char, (∀ d ∈ rest.head?, isSpace d = true) →
      ¬ (c = '/' ∧ (more ++ rest).head? = some '/') ∧
        ∃ width, readLexeme c (more ++ rest) = .ok (l, width, rest)

theorem readsAs_number {x : Float} (h : Number.ReadsBack x) :
    ReadsAs (.number x) (Number.text x).toList := by
  obtain ⟨d, ds, htext, hd, hds⟩ := Number.plain_text h
  refine ⟨d, ds, htext, ?_, fun rest hrest => ⟨fun hcomment => ?_, ds.length + 1, ?_⟩⟩
  · rw [← Bool.not_eq_true]
    intro hspace
    have hno := (not_of_isSpace hspace).1
    rw [inNumber, hd] at hno
    cases hno
  · rw [hcomment.1] at hd
    cases hd
  · obtain ⟨htake, hdrop⟩ := Text.split_before (p := inNumber) hds fun e he =>
      (not_of_isSpace (hrest e he)).1
    have hstarts : startsNumber d (ds ++ rest) = true := by
      unfold startsNumber
      rw [hd, Bool.true_or]
    have hread : numeral (d :: ds) = .ok (.number x) := by
      have hback : Number.readDecimal? (Number.text x).toList = some x := h
      rw [htext] at hback
      unfold numeral
      rw [hback]
    have hlexed := Lexed.number hstarts (by rwa [htake])
    rw [htake, hdrop] at hlexed
    exact readLexeme_eq_ok.2 hlexed

/-- A word is read as a name or as the reserved word that it is. -/
theorem readsAs_word (word : String) (h : IsWord word) : ReadsAs (.ofWord word) word.toList := by
  obtain ⟨c, cs, hword, hc, hcs⟩ := h
  obtain ⟨hspace, -, -, hslash⟩ := not_of_startsName hc
  refine ⟨c, cs, hword, hspace, fun rest hrest =>
    ⟨fun hcomment => hslash hcomment.1, cs.length + 1, ?_⟩⟩
  obtain ⟨htake, hdrop⟩ := Text.split_before hcs fun d hd => (not_of_isSpace (hrest d hd)).2.1
  have hlist : String.ofList (c :: cs) = word := by rw [← hword, String.ofList_toList]
  have hlexed : Lexed c (cs ++ rest) _ _ _ := .word hc
  rw [htake, hdrop, hlist] at hlexed
  exact readLexeme_eq_ok.2 hlexed

/-- **An escaped string is read as the string**, whatever characters it has. -/
theorem stringBody_escaped {quote : Char} (hq : IsQuote quote) (cs held rest : List Char)
    (width : Nat) : ∃ w, stringBody quote held width (escaped quote cs ++ quote :: rest) =
      some (String.ofList (held.reverse ++ cs), w, rest) := by
  have hquote : quote ≠ '\\' := by rcases hq with rfl | rfl <;> decide
  induction cs generalizing held width with
  | nil =>
    refine ⟨width + 1, ?_⟩
    rw [List.append_nil]
    exact (stringBody_cons hquote).trans (if_pos rfl)
  | cons c cs ih =>
    have hheld (d : Char) : (d :: held).reverse ++ cs = held.reverse ++ d :: cs := by simp
    have happend : escaped quote (c :: cs) ++ quote :: rest =
        escape quote c ++ (escaped quote cs ++ quote :: rest) := by simp [escaped]
    rw [happend]
    by_cases hspecial : c = '\\' ∨ c = quote
    · -- a backslash and a quote stand for themselves after a backslash
      have hsame : unescape c = c := by
        rcases hspecial with rfl | rfl
        · rfl
        · rcases hq with rfl | rfl <;> rfl
      obtain ⟨w, hw⟩ := ih (c :: held) (width + 1 + c.utf8Size)
      refine ⟨w, ?_⟩
      rw [escape, if_pos hspecial, List.cons_append, List.cons_append, List.nil_append, stringBody,
        hsame, hw, hheld]
    · by_cases hline : c = '\n'
      · subst hline
        obtain ⟨w, hw⟩ := ih ('\n' :: held) (width + 1 + 'n'.utf8Size)
        refine ⟨w, ?_⟩
        rw [escape, if_neg hspecial, if_pos rfl, List.cons_append, List.cons_append,
          List.nil_append, stringBody, show unescape 'n' = '\n' from rfl, hw, hheld]
      · obtain ⟨hslash, hne⟩ := not_or.1 hspecial
        obtain ⟨w, hw⟩ := ih (c :: held) (width + c.utf8Size)
        refine ⟨w, ?_⟩
        rw [escape, if_neg hspecial, if_neg hline, List.singleton_append, stringBody_cons hslash,
          if_neg hne, if_neg hline, hw, hheld]

theorem readsAs_string {quote : Char} (hq : IsQuote quote) (s : String) :
    ReadsAs (.string s) (quote :: (escaped quote s.toList ++ [quote])) := by
  have hspace : isSpace quote = false := by rcases hq with rfl | rfl <;> decide
  have hslash : quote ≠ '/' := by rcases hq with rfl | rfl <;> decide
  refine ⟨quote, _, rfl, hspace, fun rest _ => ⟨fun hcomment => hslash hcomment.1, ?_⟩⟩
  obtain ⟨w, hw⟩ := stringBody_escaped hq s.toList [] rest 0
  rw [List.reverse_nil, List.nil_append, String.ofList_toList] at hw
  refine ⟨1 + w, ?_⟩
  rw [List.append_assoc, List.singleton_append]
  exact readLexeme_eq_ok.2 (.string hq hw)

/-- A sign of one character is not read as more than that where white space comes next. -/
theorem readsAs_sign {c : Char} {l : Lexeme} (h : Lexeme.sign? c = some l) : ReadsAs l [c] := by
  refine ⟨c, [], rfl, (not_of_sign h).1, fun rest hrest => ⟨fun hcomment => ?_, 1, ?_⟩⟩
  · exact (not_of_isSpace (hrest '/' hcomment.2)).2.2.2 rfl
  · exact readLexeme_eq_ok.2 (.sign h fun _ hhead => (not_of_isSpace (hrest '=' hhead)).2.2.1 rfl)

theorem readsAs_pair {c : Char} {l l' : Lexeme} (h : Lexeme.withEquals? c = some l)
    (hsign : Lexeme.sign? c = some l') : ReadsAs l [c, '='] := by
  refine ⟨c, ['='], rfl, (not_of_sign hsign).1, fun rest _ => ⟨fun hcomment => ?_, 2, ?_⟩⟩
  · cases hcomment.2
  · exact readLexeme_eq_ok.2 (.pair h)

theorem isWord_of_all {word : String} {c : Char} {cs : List Char} (hword : word.toList = c :: cs)
    (hc : startsName c = true) (hcs : cs.all continuesName = true) : IsWord word :=
  ⟨c, cs, hword, hc, List.all_eq_true.1 hcs⟩

/-- **A lexeme that is written is read as itself**, where it ends or white space comes next. -/
theorem readsAs_written {quote : Char} (hq : IsQuote quote) {l : Lexeme} (h : l.Writable) :
    ReadsAs l (l.written quote) := by
  cases l with
  | number x => exact readsAs_number h
  | string s => exact readsAs_string hq s
  | name x =>
    obtain ⟨hword, hfree⟩ := h
    have hname : Lexeme.ofWord x = .name x := by rw [Lexeme.ofWord, hfree]; rfl
    have hread := readsAs_word x hword
    rw [hname] at hread
    exact hread
  | kwLet => exact readsAs_word "let" (isWord_of_all rfl rfl rfl)
  | kwVar => exact readsAs_word "var" (isWord_of_all rfl rfl rfl)
  | kwDebugger => exact readsAs_word "debugger" (isWord_of_all rfl rfl rfl)
  | kwThis => exact readsAs_word "this" (isWord_of_all rfl rfl rfl)
  | kwTrue => exact readsAs_word "true" (isWord_of_all rfl rfl rfl)
  | kwFalse => exact readsAs_word "false" (isWord_of_all rfl rfl rfl)
  | kwNull => exact readsAs_word "null" (isWord_of_all rfl rfl rfl)
  | kwUndefined => exact readsAs_word "undefined" (isWord_of_all rfl rfl rfl)
  | eqEq => exact readsAs_pair (c := '=') rfl rfl
  | notEq => exact readsAs_pair (c := '!') rfl rfl
  | le => exact readsAs_pair (c := '<') rfl rfl
  | ge => exact readsAs_pair (c := '>') rfl rfl
  | _ => exact readsAs_sign rfl

/-! ### Gaps -/

/-- White space and comments that are closed by a line feed, in any order, or nothing. -/
inductive Filler : List Char → Prop
  | nil : Filler []
  | space {c cs} : isSpace c = true → Filler cs → Filler (c :: cs)
  | comment {text cs} : (∀ c ∈ text, c ≠ '\n') → Filler cs →
    Filler ('/' :: '/' :: (text ++ '\n' :: cs))

/-- What stands between two tokens: a character of white space, and then a filler. -/
def Gap (cs : List Char) : Prop := ∃ c more, cs = c :: more ∧ isSpace c = true ∧ Filler more

theorem scan_comment (tokens : Array Token) (o : Nat) {text : List Char}
    (h : ∀ c ∈ text, c ≠ '\n') (cs : List Char) :
    ∃ o', scan tokens o ('/' :: '/' :: (text ++ '\n' :: cs)) = scan tokens o' cs := by
  have hdrop : ('/' :: (text ++ '\n' :: cs)).dropWhile (· ≠ '\n') = '\n' :: cs := by
    have hall : ∀ c ∈ '/' :: text, (c ≠ '\n' : Bool) = true := by
      intro c hc
      rcases List.mem_cons.1 hc with rfl | hc
      · rfl
      · exact decide_eq_true (h c hc)
    show ('/' :: text ++ '\n' :: cs).dropWhile (· ≠ '\n') = '\n' :: cs
    rw [List.dropWhile_append_of_pos hall]
    rfl
  refine ⟨o + 1 + Text.bytes (('/' :: (text ++ '\n' :: cs)).takeWhile (· ≠ '\n')) + 1, ?_⟩
  rw [scan_slashes tokens o ⟨rfl, rfl⟩, hdrop, scan_space _ _ rfl]

/-- A filler has no tokens. -/
theorem scan_filler {gap : List Char} (h : Filler gap) (tokens : Array Token) (o : Nat)
    (cs : List Char) : ∃ o', scan tokens o (gap ++ cs) = scan tokens o' cs := by
  induction h generalizing o with
  | nil => exact ⟨o, rfl⟩
  | space hc _ ih =>
    obtain ⟨o', ho⟩ := ih (o + 1)
    refine ⟨o', ?_⟩
    rw [List.cons_append, scan_space tokens o hc, ho]
  | @comment text more htext _ ih =>
    obtain ⟨o₁, h₁⟩ := scan_comment tokens o htext (more ++ cs)
    obtain ⟨o', ho⟩ := ih o₁
    refine ⟨o', ?_⟩
    rw [← ho, ← h₁]
    simp

/-- A text that is read as a lexeme makes one token. -/
theorem scan_readsAs {l : Lexeme} {cs rest : List Char} (h : ReadsAs l cs)
    (hrest : ∀ d ∈ rest.head?, isSpace d = true) (tokens : Array Token) (o : Nat) :
    ∃ width, scan tokens o (cs ++ rest) =
      scan (tokens.push ⟨l, ⟨o, o + width⟩⟩) (o + width) rest := by
  obtain ⟨c, more, rfl, hspace, hread⟩ := h
  obtain ⟨hcomment, width, hread⟩ := hread rest hrest
  refine ⟨width, ?_⟩
  exact scan_lexeme tokens o (by simp [hspace]) hcomment hread

end Token

/-! ### Texts -/

/-- The quotes and the gaps of a text. Its lexemes are counted from zero, and the gap `i` comes after
the lexeme `i`. -/
structure Style where
  quote : Nat → Char
  gap : Nat → List Char
  isQuote : ∀ i, Token.IsQuote (quote i)
  isGap : ∀ i, Token.Gap (gap i)

namespace Style

/-- The text of lexemes, the first of which has the number `i`. -/
def write (style : Style) : Nat → List Lexeme → List Char
  | _, [] => []
  | i, [l] => l.written (style.quote i)
  | i, l :: l' :: ls => l.written (style.quote i) ++ (style.gap i ++ style.write (i + 1) (l' :: ls))

/-- The text of a tree. -/
def print (style : Style) (body : List Stmt) : String :=
  String.ofList (style.write 0 (bodyLexemes body))

end Style

namespace Token

/-- The scanner finds the lexemes of a text. -/
theorem scan_write (style : Style) {ls : List Lexeme} (h : ∀ l ∈ ls, l.Writable) (i : Nat)
    (tokens : Array Token) (o : Nat) :
    ∃ found, scan tokens o (style.write i ls) = .ok found ∧
      found.toList.map lexeme = tokens.toList.map lexeme ++ ls := by
  induction ls generalizing i tokens o with
  | nil =>
    refine ⟨tokens, ?_, (List.append_nil _).symm⟩
    rw [Style.write, scan.eq_def]
  | cons l ls ih =>
    obtain ⟨hl, hls⟩ := List.forall_mem_cons.1 h
    have hread := readsAs_written (style.isQuote i) hl
    have hpush (t : Token) (ht : t.lexeme = l) (more : List Lexeme) :
        (tokens.push t).toList.map lexeme ++ more = tokens.toList.map lexeme ++ l :: more := by
      simp [ht]
    cases ls with
    | nil =>
      have hend : ∀ d ∈ ([] : List Char).head?, isSpace d = true := nofun
      obtain ⟨width, hscan⟩ := scan_readsAs hread hend tokens o
      refine ⟨tokens.push ⟨l, ⟨o, o + width⟩⟩, ?_, ?_⟩
      · rw [List.append_nil] at hscan
        rw [Style.write, hscan, scan.eq_def]
      · rw [← hpush ⟨l, ⟨o, o + width⟩⟩ rfl [], List.append_nil]
    | cons l' ls =>
      obtain ⟨c, filler, hgap, hspace, hfiller⟩ := style.isGap i
      -- the lexeme ends before the gap, whose first character is white space
      have hhead : ∀ d ∈ (style.gap i ++ style.write (i + 1) (l' :: ls)).head?,
          isSpace d = true := by
        rw [hgap]
        intro d hd
        cases hd
        exact hspace
      obtain ⟨width, hscan⟩ := scan_readsAs hread hhead tokens o
      rw [hgap, List.cons_append, scan_space _ _ hspace] at hscan
      obtain ⟨o', ho⟩ := scan_filler hfiller (tokens.push ⟨l, ⟨o, o + width⟩⟩) (o + width + 1)
        (style.write (i + 1) (l' :: ls))
      obtain ⟨found, hfound, hmap⟩ := ih hls (i + 1) (tokens.push ⟨l, ⟨o, o + width⟩⟩) o'
      refine ⟨found, ?_, hmap.trans (hpush _ rfl _)⟩
      rw [Style.write, hgap, List.cons_append, hscan, ho, hfound]

/-- **The tokens of a text are its lexemes.** -/
theorem ofText_write (style : Style) {ls : List Lexeme} (h : ∀ l ∈ ls, l.Writable) :
    ∃ ts, ofText (String.ofList (style.write 0 ls)) = .ok ts ∧ ts.map lexeme = ls := by
  obtain ⟨found, hfound, hmap⟩ := scan_write style h 0 #[] 0
  refine ⟨found.toList, ?_, hmap⟩
  unfold ofText
  rw [String.toList_ofList, hfound]
  rfl

end Token

/-- A single blank in every gap. -/
def Style.spaced : Style where
  quote _ := '"'
  gap _ := [' ']
  isQuote _ := Or.inl rfl
  isGap _ := ⟨' ', [], rfl, rfl, .nil⟩

/-- Lexemes that are derived as an expression can be written as a source that is read as it. -/
theorem Grammar.ofSource_write (style : Style) {n : Nat} {ls : List Lexeme} {e : Expr}
    (name : String) (h : Derives .assignment n ls e) (hn : n ≤ Tree.maxNesting)
    (hls : ∀ l ∈ ls, l.Writable) :
    ∃ span, Tree.ofSource (Source.ofText name (String.ofList (style.write 0 ls))) =
      .ok [.expr span e] := by
  obtain ⟨ts, hts, hlexemes⟩ := Token.ofText_write style hls
  exact ofSource_of_derives name hts (hlexemes ▸ h) hn

/-! ### Trees -/

/-- **What is printed is read.** The text of a tree, in whatever style it is written, is read as that
tree up to spans, if its names can be names, its numbers are read back from their texts, and it is
not nested too deeply for the reader. -/
theorem read_printed (style : Style) (name : String) {body : List Stmt}
    (hw : ∀ l ∈ bodyLexemes body, l.Writable) (hn : bodyNesting body ≤ Tree.maxNesting) :
    ∃ found, Tree.ofSource (Source.ofText name (style.print body)) = .ok found ∧
      bareBody found = bareBody body := by
  obtain ⟨ts, hts, hlexemes⟩ := Token.ofText_write style hw
  have hscript : Grammar.Script (bodyNesting body) (ts.map Token.lexeme) body :=
    hlexemes ▸ Grammar.script_lexemes body
  obtain ⟨found, hfound, hbare⟩ :=
    Grammar.ofTokens_of_script (style.print body).utf8ByteSize hscript hn
  refine ⟨found, ?_, hbare⟩
  have htext : Token.ofText (Source.ofText name (style.print body)).text = .ok ts := hts
  have hread : (Token.ofText (Source.ofText name (style.print body)).text >>=
      Tree.ofTokens (Source.ofText name (style.print body)).text.utf8ByteSize) = .ok found := by
    rw [htext]
    exact hfound
  unfold Tree.ofSource
  rw [hread]

/-- Quotes of both kinds, one after the other, and a comment in every second gap. -/
def Style.commented : Style where
  quote i := if i % 2 = 0 then '"' else '\''
  gap i := if i % 2 = 0 then [' '] else ['\n', '/', '/', '"', '\n']
  isQuote i := by
    by_cases h : i % 2 = 0
    · exact Or.inl (if_pos h)
    · exact Or.inr (if_neg h)
  isGap i := by
    by_cases h : i % 2 = 0
    · exact ⟨' ', [], if_pos h, rfl, .nil⟩
    · refine ⟨'\n', _, if_neg h, rfl, ?_⟩
      exact @Token.Filler.comment ['"'] [] (by simp) .nil

/-- A string that has to be escaped, a number with a point, an operand that needs parentheses, and an
assignment among operands. -/
theorem commented_text_read :
    let body : List Stmt := [.declare ⟨0, 0⟩ .lexical "a_1" (some (.binary .sub (.number 2.5)
      (.binary .sub (.unary .neg (.string "it's \\ \"\n")) (.assign "$b" .self)))),
      .block ⟨0, 0⟩ [.empty ⟨0, 0⟩]]
    (∀ l ∈ bodyLexemes body, l.Writable) ∧ bodyNesting body ≤ Tree.maxNesting ∧
      ∃ found, Tree.ofSource (Source.ofText "s" (Style.commented.print body)) = .ok found ∧
        bareBody found = bareBody body := by
  intro body
  have hw : ∀ l ∈ bodyLexemes body, l.Writable := by
    have hname : Lexeme.Writable (.name "a_1") := ⟨Token.isWord_of_all rfl rfl rfl, rfl⟩
    have hname' : Lexeme.Writable (.name "$b") := ⟨Token.isWord_of_all rfl rfl rfl, rfl⟩
    have hnumber : Lexeme.Writable (.number 2.5) := by
      show Number.ReadsBack 2.5
      decide +kernel
    have hlexemes : bodyLexemes body = [.kwLet, .name "a_1", .assign, .number 2.5, .minus, .parenOpen,
        .minus, .string "it's \\ \"\n", .minus, .parenOpen, .name "$b", .assign, .kwThis,
        .parenClose, .parenClose, .semicolon, .braceOpen, .semicolon, .braceClose] := rfl
    rw [hlexemes]
    simp only [List.forall_mem_cons, List.not_mem_nil, false_implies, implies_true, hname, hname',
      hnumber, true_and, and_true]
    simp only [Lexeme.Writable, and_self]
  have hn : bodyNesting body ≤ Tree.maxNesting := by decide
  exact ⟨hw, hn, read_printed .commented "s" hw hn⟩

end ScriptDebug
