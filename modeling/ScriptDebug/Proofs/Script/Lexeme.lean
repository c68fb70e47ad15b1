/-
# How a lexeme is read

A lexeme begins like no lexeme of another kind: a number with a digit or a point, a
string with a quote, a word with a letter, and a sign with a character of its own.
So there are five ways in which a lexeme is read off a text, and each of them says
all about what is taken and what is left (`Token.readLexeme_eq_ok`).

Key definitions: `Token.Lexed`.
Key theorems: `Token.readLexeme_eq_ok`, `Token.not_of_isSpace`,
`Token.not_of_startsName`, `Token.not_of_sign`.
-/
import Mathlib
import ScriptDebug.Script.Token.Scan

namespace ScriptDebug
namespace Token

/-! ### What a lexeme starts with and what ends it -/

theorem ofWord_ne_braceClose (word : String) : Lexeme.ofWord word ≠ .braceClose := by
  unfold Lexeme.ofWord Lexeme.keyword?
  repeat' split
  all_goals simp

theorem withEquals?_ne_braceClose (c : Char) : Lexeme.withEquals? c ≠ some .braceClose := by
  unfold Lexeme.withEquals?
  repeat' split
  all_goals simp

theorem numeral_ne_braceClose (literal : List Char) : numeral literal ≠ .ok .braceClose := by
  unfold numeral
  split <;> simp

/-- The signs of one character. -/
theorem mem_signs {c : Char} {l : Lexeme} (h : Lexeme.sign? c = some l) :
    c ∈ ['=', '!', '<', '>', '(', ')', '{', '}', ';', '+', '-', '*', '/', '%'] := by
  by_contra hnot
  simp only [List.mem_cons, List.not_mem_nil, or_false, not_or] at hnot
  simp [Lexeme.sign?, hnot] at h

/-- A character that begins a sign of two begins one of one. -/
theorem sign_of_withEquals? {c : Char} {l : Lexeme} (h : Lexeme.withEquals? c = some l) :
    ∃ l', Lexeme.sign? c = some l' := by
  unfold Lexeme.withEquals? at h
  split_ifs at h <;> subst_vars <;> exact ⟨_, rfl⟩

/-- White space ends a number, a name and a sign. -/
theorem not_of_isSpace {c : Char} (h : isSpace c = true) :
    inNumber c = false ∧ continuesName c = false ∧ c ≠ '=' ∧ c ≠ '/' := by
  simp only [isSpace, Bool.or_eq_true, decide_eq_true_eq] at h
  rcases h with (((rfl | rfl) | rfl) | rfl) | rfl <;> decide

/-- A quote starts no number. -/
theorem startsNumber_quote {c : Char} (h : c = '"' ∨ c = '\'') (cs : List Char) :
    startsNumber c cs = false := by
  rcases h with rfl | rfl <;> rfl

/-- A name starts like nothing else. -/
theorem not_of_startsName {c : Char} (h : startsName c = true) :
    isSpace c = false ∧ (∀ cs, startsNumber c cs = false) ∧ ¬ (c = '"' ∨ c = '\'') ∧ c ≠ '/' := by
  have hdigit : c.isDigit = false := by
    simp only [startsName, Bool.or_eq_true, decide_eq_true_eq] at h
    rcases h with (h | rfl) | rfl
    · grind [Char.isAlpha, Char.isUpper, Char.isLower, Char.isDigit]
    · decide
    · decide
  have hne (d : Char) (hd : startsName d = false) : c ≠ d := by
    rintro rfl
    rw [h] at hd
    cases hd
  refine ⟨?_, fun cs => ?_, ?_, hne '/' (by decide)⟩
  · rw [← Bool.not_eq_true]
    intro hspace
    have hno := (not_of_isSpace hspace).2.1
    simp only [startsName, continuesName, Char.isAlphanum] at h hno
    simp_all
  · simp [startsNumber, hdigit, hne '.' (by decide)]
  · rintro (rfl | rfl)
    · exact hne '"' (by decide) rfl
    · exact hne '\'' (by decide) rfl

/-- A sign starts like nothing else. -/
theorem not_of_sign {c : Char} {l : Lexeme} (h : Lexeme.sign? c = some l) :
    isSpace c = false ∧ (∀ cs, startsNumber c cs = false) ∧ ¬ (c = '"' ∨ c = '\'') ∧
      startsName c = false := by
  have hplain : isSpace c = false ∧ (c.isDigit = false ∧ c ≠ '.') ∧ ¬ (c = '"' ∨ c = '\'') ∧
      startsName c = false := by
    have hmem := mem_signs h
    simp only [List.mem_cons, List.not_mem_nil, or_false] at hmem
    rcases hmem with rfl | rfl | rfl | rfl | rfl | rfl | rfl | rfl | rfl | rfl | rfl | rfl | rfl |
      rfl <;> decide
  obtain ⟨hspace, ⟨hdigit, hpoint⟩, hquote, hname⟩ := hplain
  refine ⟨hspace, fun cs => ?_, hquote, hname⟩
  simp [startsNumber, hdigit, hpoint]

/-! ### The ways to read one -/

/-- `Lexed c cs l width rest`: the text that is `c` and then `cs` begins with the lexeme `l`, which
has `width` bytes, and `rest` comes after it. -/
inductive Lexed (c : Char) : List Char → Lexeme → Nat → List Char → Prop
  | number {cs l} : startsNumber c cs = true → numeral (c :: cs.takeWhile inNumber) = .ok l →
    Lexed c cs l (c :: cs.takeWhile inNumber).length (cs.dropWhile inNumber)
  | string {cs s width rest} : c = '"' ∨ c = '\'' →
    stringBody c [] 0 cs = some (s, width, rest) → Lexed c cs (.string s) (1 + width) rest
  | word {cs} : startsName c = true →
    Lexed c cs (.ofWord (String.ofList (c :: cs.takeWhile continuesName)))
      (c :: cs.takeWhile continuesName).length (cs.dropWhile continuesName)
  | pair {l rest} : Lexeme.withEquals? c = some l → Lexed c ('=' :: rest) l 2 rest
  | sign {l rest} : Lexeme.sign? c = some l →
    (Lexeme.withEquals? c ≠ none → rest.head? ≠ some '=') → Lexed c rest l 1 rest

/-- **There are five ways to read a lexeme.** -/
theorem readLexeme_eq_ok {c : Char} {cs rest : List Char} {l : Lexeme} {width : Nat} :
    readLexeme c cs = .ok (l, width, rest) ↔ Lexed c cs l width rest := by
  constructor
  · intro h
    unfold readLexeme at h
    split at h
    · rename_i hnumber
      split at h
      · rename_i hread
        cases h
        exact .number hnumber hread
      · cases h
    · split at h
      · rename_i hquote
        split at h
        · rename_i hbody
          cases h
          exact .string hquote hbody
        · cases h
      · split at h
        · rename_i hname
          cases h
          exact .word hname
        · split at h
          · rename_i hpair _
            cases h
            exact .pair hpair
          · rename_i hsingle _
            split at h
            · rename_i hsign
              cases h
              refine .sign hsign fun hpair hhead => ?_
              obtain ⟨l', hl'⟩ := Option.ne_none_iff_exists'.1 hpair
              obtain ⟨more, hmore⟩ := List.head?_eq_some_iff.1 hhead
              exact hsingle l' more hl' hmore
            · cases h
  · intro h
    cases h with
    | number hnumber hread =>
      unfold readLexeme
      rw [if_pos hnumber, hread]
    | string hquote hbody =>
      unfold readLexeme
      rw [startsNumber_quote hquote, if_neg Bool.false_ne_true, if_pos hquote, hbody]
    | word hname =>
      obtain ⟨-, hnumber, hquote, -⟩ := not_of_startsName hname
      unfold readLexeme
      rw [hnumber, if_neg Bool.false_ne_true, if_neg hquote, if_pos hname]
    | pair hpair =>
      obtain ⟨l', hsign⟩ := sign_of_withEquals? hpair
      obtain ⟨-, hnumber, hquote, hname⟩ := not_of_sign hsign
      unfold readLexeme
      rw [hnumber, if_neg Bool.false_ne_true, if_neg hquote, hname, if_neg Bool.false_ne_true, hpair]
      rfl
    | sign hsign hsingle =>
      obtain ⟨-, hnumber, hquote, hname⟩ := not_of_sign hsign
      unfold readLexeme
      rw [hnumber, if_neg Bool.false_ne_true, if_neg hquote, hname, if_neg Bool.false_ne_true]
      split
      · rename_i hpair
        exact absurd rfl (hsingle (by simp [hpair]))
      · rw [hsign]

end Token
end ScriptDebug
