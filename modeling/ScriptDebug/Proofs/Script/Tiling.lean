/-
# Tokens tile their text

A text is white space, comments and the texts of its tokens, one after the other
(`Token.tiles_ofText`). So the spans of the tokens follow one another without
overlapping, every byte outside of them is white space or in a comment, and the
text of a token, alone, is read as this token and no other (`tokens_tile_text`).

Key definitions: `Token.Tiles`, `Token.InSpace`, `Token.InComment`, `Token.Tiling`.
Key theorems: `Token.tiles_ofText`, `Token.Tiles.between`, `tokens_tile_text`.
-/
import ScriptDebug.Proofs.Script.Locality

namespace ScriptDebug

namespace Token

/-! ### Tilings -/

theorem bytes_space {c : Char} (h : isSpace c = true) : Text.bytes [c] = 1 := by
  rw [Text.bytes_cons, utf8Size_of_isSpace h]
  rfl

/-- The text is read as the lexeme, and nothing else is in it. -/
def ReadAlone (l : Lexeme) (text : List Char) : Prop :=
  ofText (String.ofList text) = .ok [⟨l, ⟨0, Text.bytes text⟩⟩]

/-- A comment and what comes after it: two slashes, and all that is on their line. -/
structure IsComment (text after : List Char) : Prop where
  slashes : ∃ body, text = '/' :: '/' :: body ∧ '\n' ∉ body
  line : ∀ d ∈ after.head?, d = '\n'

/-- `Tiles o cs ts`: the text `cs`, which begins at the offset `o`, is white space, comments and the
texts of the tokens `ts`, one after the other. -/
inductive Tiles : Nat → List Char → List Token → Prop
  | nil {o} : Tiles o [] []
  | space {o c cs ts} : isSpace c = true → Tiles (o + Text.bytes [c]) cs ts →
    Tiles o ([c] ++ cs) ts
  | comment {o text cs ts} : IsComment text cs → Tiles (o + Text.bytes text) cs ts →
    Tiles o (text ++ cs) ts
  | token {o l text cs ts} : 0 < Text.bytes text → ReadAlone l text →
    Tiles (o + Text.bytes text) cs ts →
    Tiles o (text ++ cs) (⟨l, ⟨o, o + Text.bytes text⟩⟩ :: ts)

/-- What was read as a lexeme is read as this lexeme where nothing else is. -/
theorem readAlone_of_readLexeme {c : Char} {more rest : List Char} {l : Lexeme} {width : Nat}
    (hspace : isSpace c ≠ true) (hcomment : ¬ (c = '/' ∧ (more ++ rest).head? = some '/'))
    (hread : readLexeme c more = .ok (l, width, [])) (hwidth : Text.bytes (c :: more) = width) :
    ReadAlone l (c :: more) := by
  have halone : ¬ (c = '/' ∧ more.head? = some '/') := by
    have hnone := not_comment_local hcomment (standsFor_nil rest)
    rwa [List.append_nil] at hnone
  unfold ReadAlone ofText
  rw [String.toList_ofList, scan_lexeme #[] 0 hspace halone hread, scan.eq_def, hwidth, Nat.zero_add]
  rfl

theorem isComment_of_slashes {c : Char} {cs : List Char} (h : c = '/' ∧ cs.head? = some '/') :
    IsComment (c :: cs.takeWhile (· ≠ '\n')) (cs.dropWhile (· ≠ '\n')) := by
  obtain ⟨rfl, hhead⟩ := h
  obtain ⟨cs, rfl⟩ := List.head?_eq_some_iff.1 hhead
  refine ⟨⟨cs.takeWhile (· ≠ '\n'), rfl, fun hmem => ?_⟩, fun d hd => ?_⟩
  · simpa using List.mem_takeWhile_imp hmem
  · have hstop := List.head?_dropWhile_not (· ≠ '\n') ('/' :: cs)
    rw [hd] at hstop
    simpa using hstop

theorem tiles_scan {tokens found : Array Token} {o : Nat} {cs : List Char}
    (h : scan tokens o cs = .ok found) :
    ∃ ts, found.toList = tokens.toList ++ ts ∧ Tiles o cs ts := by
  fun_induction scan tokens o cs with
  | case1 tokens o =>
    cases h
    exact ⟨[], (List.append_nil _).symm, .nil⟩
  | case2 tokens o c cs hc ih =>
    obtain ⟨ts, hfound, htiles⟩ := ih h
    refine ⟨ts, hfound, .space hc ?_⟩
    rwa [bytes_space hc]
  | case3 tokens o c cs _ hc ih =>
    obtain ⟨ts, hfound, htiles⟩ := ih h
    have hsplit : c :: cs = (c :: cs.takeWhile (· ≠ '\n')) ++ cs.dropWhile (· ≠ '\n') := by simp
    have hone : c.utf8Size = 1 := by
      rw [hc.1]
      rfl
    refine ⟨ts, hfound, ?_⟩
    rw [hsplit]
    refine .comment (isComment_of_slashes hc) ?_
    rwa [Text.bytes_cons, hone, ← Nat.add_assoc]
  | case4 => cases h
  | case5 tokens o c cs hspace hcomment l width left hread ih =>
    obtain ⟨ts, hfound, htiles⟩ := ih h
    obtain ⟨hpos, -⟩ := readLexeme_width hread
    obtain ⟨used, hused, hwidth⟩ := readLexeme_split hread
    obtain ⟨more, rfl, hlocal⟩ := readLexeme_local hread
    obtain rfl : c :: more = used := List.append_cancel_right hused
    have halone : readLexeme c more = .ok (l, width, []) := by
      have hnone := hlocal [] (standsFor_nil left)
      rwa [List.append_nil] at hnone
    refine ⟨⟨l, ⟨o, o + width⟩⟩ :: ts, ?_, ?_⟩
    · rw [hfound, Array.toList_push, List.append_assoc]
      rfl
    · rw [← hwidth] at hpos htiles ⊢
      exact .token hpos (readAlone_of_readLexeme hspace hcomment halone hwidth) htiles

/-- **A text is white space, comments and its tokens.** -/
theorem tiles_ofText {text : String} {ts : List Token} (h : ofText text = .ok ts) :
    Tiles 0 text.toList ts := by
  unfold ofText at h
  cases hs : scan #[] 0 text.toList with
  | error e => simp [hs, Except.map] at h
  | ok found =>
    rw [hs] at h
    cases h
    obtain ⟨ts, hfound, htiles⟩ := tiles_scan hs
    have hfound : found.toList = ts := hfound
    exact hfound ▸ htiles

/-! ### Where tokens are, and where they are not -/

/-- The text `cs` begins at the offset `o`, and from the offset `start` on it is `text` and then
`after`. -/
def StandsAt (o : Nat) (cs : List Char) (start : Nat) (text after : List Char) : Prop :=
  ∃ before, cs = before ++ (text ++ after) ∧ o + Text.bytes before = start

theorem StandsAt.here (o : Nat) (text after : List Char) :
    StandsAt o (text ++ after) o text after := ⟨[], rfl, rfl⟩

theorem StandsAt.behind {o start : Nat} {cs text after : List Char} {first : List Char}
    (h : StandsAt (o + Text.bytes first) cs start text after) :
    StandsAt o (first ++ cs) start text after := by
  obtain ⟨before, rfl, hstart⟩ := h
  refine ⟨first ++ before, by simp, ?_⟩
  rw [Text.bytes_append, ← Nat.add_assoc, hstart]

theorem StandsAt.stop_le {o start : Nat} {cs text after : List Char}
    (h : StandsAt o cs start text after) : start + Text.bytes text ≤ o + Text.bytes cs := by
  obtain ⟨before, rfl, rfl⟩ := h
  rw [Text.bytes_append, Text.bytes_append]
  omega

/-- A character of white space stands at the offset `i`. -/
def InSpace (o : Nat) (cs : List Char) (i : Nat) : Prop :=
  ∃ c after, isSpace c = true ∧ StandsAt o cs i [c] after

/-- The byte at the offset `i` is in a comment that no token overlaps. -/
def InComment (o : Nat) (cs : List Char) (ts : List Token) (i : Nat) : Prop :=
  ∃ start text after, IsComment text after ∧ StandsAt o cs start text after ∧
    (start ≤ i ∧ i < start + Text.bytes text) ∧
    ∀ t ∈ ts, t.span.stop ≤ start ∨ start + Text.bytes text ≤ t.span.start

/-- What is outside of the tokens `us` and `ts` in a text is so when the text begins earlier. -/
theorem outside_behind {o i : Nat} {first cs : List Char} {ts : List Token} (us : List Token)
    (hus : ∀ t ∈ us, t.span.stop ≤ o + Text.bytes first)
    (h : InSpace (o + Text.bytes first) cs i ∨ InComment (o + Text.bytes first) cs ts i) :
    InSpace o (first ++ cs) i ∨ InComment o (first ++ cs) (us ++ ts) i := by
  rcases h with ⟨c, after, hc, hstands⟩ | ⟨start, text, after, hcomment, hstands, hi, hout⟩
  · exact Or.inl ⟨c, after, hc, hstands.behind⟩
  · refine Or.inr ⟨start, text, after, hcomment, hstands.behind, hi, fun t ht => ?_⟩
    rcases List.mem_append.1 ht with ht | ht
    · obtain ⟨before, -, hstart⟩ := hstands
      have := hus t ht
      omega
    · exact hout t ht

namespace Tiles

variable {o : Nat} {cs : List Char} {ts : List Token}

/-- The text of a token stands where its span says, and alone it is read as the token. -/
theorem stands (h : Tiles o cs ts) : ∀ t ∈ ts, ∃ text after,
    StandsAt o cs t.span.start text after ∧ t.span.stop = t.span.start + Text.bytes text ∧
      0 < Text.bytes text ∧ ReadAlone t.lexeme text := by
  induction h with
  | nil => nofun
  | space _ _ ih | comment _ _ ih =>
    intro t ht
    obtain ⟨text, after, hstands, hstop⟩ := ih t ht
    exact ⟨text, after, hstands.behind, hstop⟩
  | @token o l text cs ts hpos halone _ ih =>
    intro t ht
    rcases List.mem_cons.1 ht with rfl | ht
    · exact ⟨text, cs, .here o text cs, rfl, hpos, halone⟩
    · obtain ⟨text, after, hstands, hstop⟩ := ih t ht
      exact ⟨text, after, hstands.behind, hstop⟩

theorem le_start (h : Tiles o cs ts) : ∀ t ∈ ts, o ≤ t.span.start := by
  intro t ht
  obtain ⟨text, after, ⟨before, -, hstart⟩, -⟩ := h.stands t ht
  omega

/-- Every token stops where the next one starts, or before. -/
theorem apart (h : Tiles o cs ts) : ts.Pairwise fun t u => t.span.stop ≤ u.span.start := by
  induction h with
  | nil => exact .nil
  | space _ _ ih | comment _ _ ih => exact ih
  | token _ _ hrest ih => exact List.pairwise_cons.2 ⟨fun u hu => hrest.le_start u hu, ih⟩

/-- **What is in no token is white space or a comment.** -/
theorem between (h : Tiles o cs ts) {i : Nat} (hlow : o ≤ i) (hhigh : i < o + Text.bytes cs)
    (hout : ∀ t ∈ ts, i < t.span.start ∨ t.span.stop ≤ i) : InSpace o cs i ∨ InComment o cs ts i := by
  induction h with
  | @nil o =>
    have hnone : i < o := hhigh
    omega
  | @space o c cs ts hc htiles ih =>
    rw [Text.bytes_append] at hhigh
    by_cases hi : i < o + Text.bytes [c]
    · have hone := bytes_space hc
      obtain rfl : i = o := by omega
      exact Or.inl ⟨c, cs, hc, .here i [c] cs⟩
    · exact outside_behind [] nofun (ih (by omega) (by omega) hout)
  | @comment o text cs ts hcomment htiles ih =>
    rw [Text.bytes_append] at hhigh
    by_cases hi : i < o + Text.bytes text
    · exact Or.inr ⟨o, text, cs, hcomment, .here o text cs, ⟨hlow, hi⟩,
        fun t ht => Or.inr (htiles.le_start t ht)⟩
    · exact outside_behind [] nofun (ih (by omega) (by omega) hout)
  | @token o l text cs ts hpos _ htiles ih =>
    rw [Text.bytes_append] at hhigh
    obtain ⟨hfirst, hothers⟩ := List.forall_mem_cons.1 hout
    have hi : o + Text.bytes text ≤ i := by
      dsimp only at hfirst
      omega
    have hstop : ∀ t ∈ [(⟨l, ⟨o, o + Text.bytes text⟩⟩ : Token)], t.span.stop ≤ o + Text.bytes text :=
      List.forall_mem_singleton.2 (Nat.le_refl _)
    exact outside_behind _ hstop (ih hi (by omega) hothers)

end Tiles

/-- Where the tokens of a text are, and what is where they are not. The spans are not empty, one after
the other, and inside the text. The text of a token is cut out between two characters, and alone it is
read as this token. What is outside of all spans is white space or a comment. -/
structure Tiling (text : String) (ts : List Token) : Prop where
  nonempty : ∀ t ∈ ts, t.span.start < t.span.stop
  apart : ts.Pairwise fun t u => t.span.stop ≤ u.span.start
  inside : ∀ t ∈ ts, t.span.stop ≤ text.utf8ByteSize
  alone : ∀ t ∈ ts, ∃ before word after : String, text = before ++ word ++ after ∧
    before.utf8ByteSize = t.span.start ∧ (before ++ word).utf8ByteSize = t.span.stop ∧
    ofText word = .ok [⟨t.lexeme, ⟨0, word.utf8ByteSize⟩⟩]
  between : ∀ i < text.utf8ByteSize, (∀ t ∈ ts, i < t.span.start ∨ t.span.stop ≤ i) →
    InSpace 0 text.toList i ∨ InComment 0 text.toList ts i

end Token

/-- **Tokens tile their text**, and every one of them is read again from its own text. -/
theorem tokens_tile_text {text : String} {ts : List Token} (h : Token.ofText text = .ok ts) :
    Token.Tiling text ts := by
  have htiles := Token.tiles_ofText h
  refine ⟨fun t ht => ?_, htiles.apart, fun t ht => ?_, fun t ht => ?_, fun i hi hout => ?_⟩
  · obtain ⟨word, after, -, hstop, hpos, -⟩ := htiles.stands t ht
    omega
  · obtain ⟨word, after, hstands, hstop, -, -⟩ := htiles.stands t ht
    have hle := hstands.stop_le
    rw [Text.utf8ByteSize_eq]
    omega
  · obtain ⟨word, after, ⟨before, htext, hstart⟩, hstop, -, halone⟩ := htiles.stands t ht
    refine ⟨String.ofList before, String.ofList word, String.ofList after, ?_, ?_, ?_, ?_⟩
    · rw [← String.ofList_append, ← String.ofList_append, List.append_assoc, ← htext,
        String.ofList_toList]
    · rw [Text.utf8ByteSize_ofList]
      omega
    · rw [← String.ofList_append, Text.utf8ByteSize_ofList, Text.bytes_append]
      omega
    · rw [Text.utf8ByteSize_ofList]
      exact halone
  · rw [Text.utf8ByteSize_eq] at hi
    exact htiles.between (Nat.zero_le i) (by omega) hout

/-- Slashes in a string, which also holds a quote and a character of two bytes, and a comment that the
text ends. -/
theorem slashes_in_string_tiled :
    Token.Tiling "a!='é\\'//'//'" [⟨.name "a", ⟨0, 1⟩⟩, ⟨.notEq, ⟨1, 3⟩⟩, ⟨.string "é'//", ⟨3, 11⟩⟩] :=
  tokens_tile_text (by cbv)

end ScriptDebug
