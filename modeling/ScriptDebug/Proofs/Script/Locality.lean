/-
# What a lexeme is read from

A lexeme depends on its own characters, and on the character after it only as far
as that one does not go on with it. So where a lexeme was read it is read again
when the text after it is replaced by nothing, by white space, or by a text that
begins like the one that stood there (`Token.readLexeme_local`). The white space
and the comments between lexemes are like that too, and so the tokens of a text
are found as before when a line feed and any other text come after it
(`Token.scan_append`).

Key definitions: `Token.StandsFor`.
Key theorems: `Token.readLexeme_local`, `Token.scan_lexeme`, `Token.scan_append`.
-/
import ScriptDebug.Proofs.Script.Places

namespace ScriptDebug
namespace Token

/-! ### Another text after a lexeme -/

/-- What may come where `rest` did: nothing, white space, or a text that begins like it. -/
def StandsFor (rest' rest : List Char) : Prop :=
  ∀ d ∈ rest'.head?, isSpace d = true ∨ d ∈ rest.head?

theorem standsFor_nil (rest : List Char) : StandsFor [] rest := nofun

/-- More text, that begins with white space, may come at the end. -/
theorem standsFor_append {c : Char} (hc : isSpace c = true) (rest more : List Char) :
    StandsFor (rest ++ c :: more) rest := by
  intro d hd
  cases rest with
  | nil =>
    cases hd
    exact Or.inl hc
  | cons => exact Or.inr hd

variable {rest rest' : List Char}

/-- A run of characters that white space ends stays as it is. -/
theorem run_local {p : Char → Bool} (hp : ∀ d, isSpace d = true → p d = false) {cs : List Char}
    (h : StandsFor rest' (cs.dropWhile p)) :
    (cs.takeWhile p ++ rest').takeWhile p = cs.takeWhile p ∧
      (cs.takeWhile p ++ rest').dropWhile p = rest' := by
  refine Text.split_before (fun c hc => List.mem_takeWhile_imp hc) fun d hd => ?_
  rcases h d hd with hspace | hmem
  · exact hp d hspace
  · have hstop := List.head?_dropWhile_not p cs
    rw [hmem] at hstop
    exact hstop

/-- A number that starts with a point has its first digit in it. -/
theorem startsNumber_local {c : Char} {cs : List Char} (h : startsNumber c cs = true)
    (rest' : List Char) : startsNumber c (cs.takeWhile inNumber ++ rest') = true := by
  unfold startsNumber at h ⊢
  rcases Bool.or_eq_true_iff.1 h with hdigit | hpoint
  · rw [hdigit, Bool.true_or]
  · cases cs with
    | nil => simp at hpoint
    | cons d cs =>
      have hd : inNumber d = true := by
        have hdigit : d.isDigit = true := (Bool.and_eq_true_iff.1 hpoint).2
        rw [inNumber, hdigit, Bool.true_or]
      rw [List.takeWhile_cons_of_pos hd, List.cons_append, List.head?_cons]
      exact Bool.or_eq_true_iff.2 (Or.inr hpoint)

theorem stringBody_cons {quote c : Char} {held : List Char} {width : Nat} {cs : List Char}
    (hc : c ≠ '\\') : stringBody quote held width (c :: cs) =
      if c = quote then some (String.ofList held.reverse, width + 1, cs)
      else if c = '\n' then none
      else stringBody quote (c :: held) (width + c.utf8Size) cs := by
  rw [stringBody.eq_def]
  split <;> simp_all

/-- A string ends with its quote, whatever comes after it. -/
theorem stringBody_local {quote : Char} (hq : quote ≠ '\\') {held : List Char} {width : Nat}
    {cs : List Char} {s : String} {w : Nat}
    (h : stringBody quote held width cs = some (s, w, rest)) :
    ∃ used, cs = used ++ rest ∧
      ∀ rest', stringBody quote held width (used ++ rest') = some (s, w, rest') := by
  fun_induction stringBody quote held width cs with
  | case1 => cases h
  | case2 => cases h
  | case3 held width c cs ih =>
    obtain ⟨used, rfl, hread⟩ := ih h
    refine ⟨'\\' :: c :: used, rfl, fun rest' => ?_⟩
    rw [List.cons_append, List.cons_append, stringBody]
    exact hread rest'
  | case4 held width cs =>
    cases h
    exact ⟨[quote], rfl, fun rest' => (stringBody_cons hq).trans (if_pos rfl)⟩
  | case5 => cases h
  | case6 held width c cs hend hescape hquote hline ih =>
    obtain ⟨used, rfl, hread⟩ := ih h
    have hslash : c ≠ '\\' := by
      rintro rfl
      cases hcs : used ++ rest with
      | nil => exact hend rfl hcs
      | cons d ds => exact hescape d ds rfl hcs
    refine ⟨c :: used, rfl, fun rest' => ?_⟩
    rw [List.cons_append, stringBody_cons hslash, if_neg hquote, if_neg hline]
    exact hread rest'

/-- **A lexeme does not depend on what comes after it**, as long as that does not go on with it. -/
theorem readLexeme_local {c : Char} {cs : List Char} {l : Lexeme} {width : Nat}
    (h : readLexeme c cs = .ok (l, width, rest)) :
    ∃ more, cs = more ++ rest ∧ ∀ rest', StandsFor rest' rest →
      readLexeme c (more ++ rest') = .ok (l, width, rest') := by
  cases readLexeme_eq_ok.1 h with
  | number hnumber hread =>
    refine ⟨cs.takeWhile inNumber, List.takeWhile_append_dropWhile.symm, fun rest' hrest => ?_⟩
    obtain ⟨htake, hdrop⟩ := run_local (fun d hd => (not_of_isSpace hd).1) hrest
    have hagain := Lexed.number (startsNumber_local hnumber rest') (by rwa [htake])
    rw [htake, hdrop] at hagain
    exact readLexeme_eq_ok.2 hagain
  | string hquote hbody =>
    have hslash : c ≠ '\\' := by rcases hquote with rfl | rfl <;> decide
    obtain ⟨used, rfl, hagain⟩ := stringBody_local hslash hbody
    exact ⟨used, rfl, fun rest' _ => readLexeme_eq_ok.2 (.string hquote (hagain rest'))⟩
  | word hname =>
    refine ⟨cs.takeWhile continuesName, List.takeWhile_append_dropWhile.symm,
      fun rest' hrest => ?_⟩
    obtain ⟨htake, hdrop⟩ := run_local (fun d hd => (not_of_isSpace hd).2.1) hrest
    have hagain : Lexed c (cs.takeWhile continuesName ++ rest') _ _ _ := .word hname
    rw [htake, hdrop] at hagain
    exact readLexeme_eq_ok.2 hagain
  | pair hpair => exact ⟨['='], rfl, fun rest' _ => readLexeme_eq_ok.2 (.pair hpair)⟩
  | sign hsign hsingle =>
    refine ⟨[], rfl, fun rest' hrest => readLexeme_eq_ok.2 (.sign hsign fun hpair hhead => ?_)⟩
    -- an equals sign after it would have been part of the sign
    rcases hrest '=' hhead with hspace | hmem
    · exact (not_of_isSpace hspace).2.2.1 rfl
    · exact hsingle hpair hmem

/-- No comment begins where a lexeme was read, whatever comes after it. -/
theorem not_comment_local {c : Char} {more : List Char}
    (h : ¬ (c = '/' ∧ (more ++ rest).head? = some '/')) (hrest : StandsFor rest' rest) :
    ¬ (c = '/' ∧ (more ++ rest').head? = some '/') := by
  rintro ⟨hc, hhead⟩
  refine h ⟨hc, ?_⟩
  cases more with
  | nil =>
    rcases hrest '/' hhead with hspace | hmem
    · exact absurd rfl (not_of_isSpace hspace).2.2.2
    · exact hmem
  | cons => exact hhead

/-! ### Scanning -/

/-- A run is the same where it is ended by a character that comes after the text. -/
theorem stop_append {p : Char → Bool} {c : Char} (hc : p c = false) (cs more : List Char) :
    (cs ++ c :: more).takeWhile p = cs.takeWhile p ∧
      (cs ++ c :: more).dropWhile p = cs.dropWhile p ++ c :: more := by
  induction cs with
  | nil => simp [hc]
  | cons d cs ih =>
    by_cases hd : p d = true
    · simp [hd, ih]
    · simp [hd]

theorem scan_space (tokens : Array Token) (o : Nat) {c : Char} (h : isSpace c = true)
    (cs : List Char) : scan tokens o (c :: cs) = scan tokens (o + 1) cs := by
  rw [scan.eq_def]
  simp only [h, if_true]

theorem scan_slashes (tokens : Array Token) (o : Nat) {c : Char} {cs : List Char}
    (h : c = '/' ∧ cs.head? = some '/') :
    scan tokens o (c :: cs) =
      scan tokens (o + 1 + Text.bytes (cs.takeWhile (· ≠ '\n'))) (cs.dropWhile (· ≠ '\n')) := by
  have hspace : isSpace c ≠ true := by
    rw [h.1]
    decide
  rw [scan.eq_def]
  dsimp only
  rw [if_neg hspace, if_pos h]

theorem scan_lexeme (tokens : Array Token) (o : Nat) {c : Char} {cs : List Char} {l : Lexeme}
    {width : Nat} (hspace : isSpace c ≠ true) (hcomment : ¬ (c = '/' ∧ cs.head? = some '/'))
    (h : readLexeme c cs = .ok (l, width, rest)) :
    scan tokens o (c :: cs) = scan (tokens.push ⟨l, ⟨o, o + width⟩⟩) (o + width) rest := by
  rw [scan.eq_def]
  dsimp only
  rw [if_neg hspace, if_neg hcomment]
  split
  · rename_i herror
    rw [h] at herror
    cases herror
  · rename_i hok
    rw [h] at hok
    cases hok
    rfl

/-- **The tokens of a text are found where a line feed and more text come after it**, and the scanner
goes on behind the line feed. -/
theorem scan_append {tokens found : Array Token} {o : Nat} {cs : List Char}
    (h : scan tokens o cs = .ok found) (rest : List Char) :
    scan tokens o (cs ++ '\n' :: rest) = scan found (o + Text.bytes cs + 1) rest := by
  fun_induction scan tokens o cs with
  | case1 tokens o =>
    cases h
    exact scan_space found o rfl rest
  | case2 tokens o c cs hc ih =>
    rw [List.cons_append, scan_space tokens o hc, ih h, Text.bytes_cons, utf8Size_of_isSpace hc]
    congr 1
    omega
  | case3 tokens o c cs _ hc ih =>
    have hhead : (cs ++ '\n' :: rest).head? = some '/' := by
      rw [List.head?_append, hc.2, Option.some_or]
    obtain ⟨htake, hdrop⟩ := stop_append (p := (· ≠ '\n')) (c := '\n') rfl cs rest
    have hbytes : Text.bytes (cs.takeWhile (· ≠ '\n')) + Text.bytes (cs.dropWhile (· ≠ '\n')) =
        Text.bytes cs := by
      rw [← Text.bytes_append, List.takeWhile_append_dropWhile]
    have hone : c.utf8Size = 1 := by
      rw [hc.1]
      rfl
    rw [List.cons_append, scan_slashes tokens o ⟨hc.1, hhead⟩, htake, hdrop, ih h, Text.bytes_cons,
      hone, ← hbytes]
    congr 1
    omega
  | case4 => cases h
  | case5 tokens o c cs hspace hcomment l width left hread ih =>
    obtain ⟨used, hused, hwidth⟩ := readLexeme_split hread
    obtain ⟨more, rfl, hlocal⟩ := readLexeme_local hread
    have hfor : StandsFor (left ++ '\n' :: rest) left := standsFor_append rfl left rest
    have hbytes : Text.bytes (c :: (more ++ left)) = width + Text.bytes left := by
      rw [hused, Text.bytes_append, hwidth]
    rw [List.cons_append, List.append_assoc,
      scan_lexeme tokens o hspace (not_comment_local hcomment hfor) (hlocal _ hfor), ih h, hbytes]
    congr 1
    omega

end Token
end ScriptDebug
