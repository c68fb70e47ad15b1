/-
# Writing JSON

How values are written in JSON, without blanks, and that each is read back from
where it is written. Of a string, quotes, backslashes and control characters are
escaped. A size ends where no digit follows, so of what comes after a value it is
only asked that it begins like what follows one in a list or an object.

Key definitions: `Json.escaped`, `Json.quoted`, `Json.list`, `Json.object`,
`Json.Follows`.
Key theorems: `Json.string_quoted`, `Json.size_repr`, `Json.text?_optional`,
`Json.nextKey_comma`.
-/
import Mathlib
import ScriptDebug.Json.Value
import ScriptDebug.Proofs.Number.Integer
import ScriptDebug.Proofs.Text.Runs

namespace ScriptDebug
namespace Json

/-! ### The written form -/

/-- A control character by its number, in four hexadecimal digits. -/
def numbered (c : Char) : List Char :=
  ['\\', 'u', '0', '0', Nat.digitChar (c.toNat / 16), Nat.digitChar (c.toNat % 16)]

/-- A character as it stands in a string. -/
def escaped (c : Char) : List Char :=
  if c = '"' then ['\\', '"']
  else if c = '\\' then ['\\', '\\']
  else if c = '\x08' then ['\\', 'b']
  else if c = '\x0c' then ['\\', 'f']
  else if c = '\n' then ['\\', 'n']
  else if c = '\r' then ['\\', 'r']
  else if c = '\t' then ['\\', 't']
  else if c.toNat < 0x20 then numbered c
  else [c]

def quoted (s : String) : List Char := '"' :: s.toList.flatMap escaped ++ ['"']

def truth (b : Bool) : List Char := if b then "true".toList else "false".toList

/-- A string, or `null` where there is none. -/
def optional : Option String → List Char
  | none => "null".toList
  | some s => quoted s

/-- What stands before an item or a member: a comma, unless it is the first one. -/
def comma (first : Bool) : List Char := if first then [] else [',']

/-- Items or members, from one on. -/
def listed (first : Bool) : List (List Char) → List Char
  | [] => []
  | x :: xs => comma first ++ x ++ listed false xs

def list (xs : List (List Char)) : List Char := '[' :: listed true xs ++ [']']

/-- A member of an object, from its key and its value. -/
def member (m : String × List Char) : List Char := quoted m.1 ++ ':' :: m.2

def object (ms : List (String × List Char)) : List Char :=
  '{' :: listed true (ms.map member) ++ ['}']

/-- The text begins like what follows a value in a list or an object. -/
inductive Follows : List Char → Prop
  | comma (cs : List Char) : Follows (',' :: cs)
  | listEnd (cs : List Char) : Follows (']' :: cs)
  | objectEnd (cs : List Char) : Follows ('}' :: cs)

variable {cs held : List Char}

theorem list_append (xs : List (List Char)) :
    list xs ++ cs = '[' :: (listed true xs ++ ']' :: cs) := by
  simp [list]

theorem object_append (ms : List (String × List Char)) :
    object ms ++ cs = '{' :: (listed true (ms.map member) ++ '}' :: cs) := by
  simp [object]

theorem member_append (key : String) (value : List Char) :
    member (key, value) ++ cs = quoted key ++ ':' :: (value ++ cs) := by
  simp [member]

theorem listed_cons (first : Bool) (x : List Char) (xs : List (List Char)) :
    listed first (x :: xs) ++ cs = comma first ++ (x ++ (listed false xs ++ cs)) := by
  simp [listed]

theorem listed_append (first : Bool) (xs ys : List (List Char)) :
    listed first (xs ++ ys) = listed first xs ++ listed (first && xs.isEmpty) ys := by
  induction xs generalizing first with
  | nil => simp [listed]
  | cons x xs ih => simp [listed, ih]

/-- What follows a value follows what may stand behind it. -/
theorem follows_listed (h : Follows cs) (xs : List (List Char)) :
    Follows (listed false xs ++ cs) := by
  cases xs with
  | nil => exact h
  | cons x xs => exact .comma _

theorem bind_of_ok {α β : Type} {x : Except Refusal α} {f : α → Except Refusal β} {a : α}
    (h : x = .ok a) : (x >>= f) = f a := by
  rw [h]
  rfl

/-! ### Strings -/

theorem hexDigit?_digitChar : ∀ d < 16, hexDigit? (Nat.digitChar d) = some d := by decide

/-- A number starts after a backslash and its letter. -/
theorem stringFrom_number {s : StringState} (h : startDigits none cs = .ok s) :
    stringFrom false held .escape ('u' :: cs) = stringFrom false held s cs := by
  have hcloses : StringState.escape.closes 'u' = false := rfl
  rw [stringFrom, hcloses, if_neg Bool.false_ne_true]
  simp [stringStep, h, Except.map]

/-- A digit that is not the last one of a number. -/
theorem stringFrom_digit {d : Char} {v value count : Nat} (hd : hexDigit? d = some v)
    (hcount : count < 3) :
    stringFrom false held (.digits none value count) (d :: cs) =
      stringFrom false held (.digits none (16 * value + v) (count + 1)) cs := by
  have hcloses : (StringState.digits none value count).closes d = false := rfl
  rw [stringFrom, hcloses, if_neg Bool.false_ne_true]
  simp only [stringStep, hd, if_pos hcount]

/-- The last digit of a number that is no half of a pair. -/
theorem stringFrom_lastDigit {d : Char} {v value : Nat} (hd : hexDigit? d = some v)
    (hvalue : 16 * value + v < 0xD800) :
    stringFrom false held (.digits none value 3) (d :: cs) =
      stringFrom false (Char.ofNat (16 * value + v) :: held) .plain cs := by
  have hcloses : (StringState.digits none value 3).closes d = false := rfl
  have hlow : isLowHalf (16 * value + v) = false := by
    rw [isLowHalf, decide_eq_false (by omega), Bool.false_and]
  have hhigh : isHighHalf (16 * value + v) = false := by
    rw [isHighHalf, decide_eq_false (by omega), Bool.false_and]
  rw [stringFrom, hcloses, if_neg Bool.false_ne_true]
  simp [stringStep, hd, finishDigits, hlow, hhigh]

/-- A control character is read back from its number. -/
theorem stringFrom_numbered {c : Char} (h : c.toNat < 0x20) :
    stringFrom false held .plain (numbered c ++ cs) = stringFrom false (c :: held) .plain cs := by
  have hzero : hexDigit? '0' = some 0 := by decide
  have hhigh := hexDigit?_digitChar (c.toNat / 16) (by omega)
  have hlow := hexDigit?_digitChar (c.toNat % 16) (by omega)
  have hvalue : 16 * (c.toNat / 16) + c.toNat % 16 = c.toNat := by omega
  unfold numbered
  generalize Nat.digitChar (c.toNat / 16) = d at hhigh
  generalize Nat.digitChar (c.toNat % 16) = d' at hlow
  have hstart : startDigits none ('0' :: '0' :: d :: d' :: cs) = .ok (.digits none 0 0) := by
    have hbytes : 4 ≤ Text.bytes ['0', '0', d, d'] := by
      have hpos := Char.utf8Size_pos
      simp only [Text.bytes_cons]
      linarith [hpos '0', hpos d, hpos d']
    exact if_neg (Nat.not_lt.2 hbytes)
  calc stringFrom false held .plain ('\\' :: 'u' :: '0' :: '0' :: d :: d' :: cs)
    _ = stringFrom false held .escape ('u' :: '0' :: '0' :: d :: d' :: cs) := rfl
    _ = stringFrom false held (.digits none 0 0) ('0' :: '0' :: d :: d' :: cs) :=
      stringFrom_number hstart
    _ = stringFrom false held (.digits none 0 2) (d :: d' :: cs) := by
      rw [stringFrom_digit hzero (by decide), stringFrom_digit hzero (by decide)]
    _ = stringFrom false held (.digits none (c.toNat / 16) 3) (d' :: cs) := by
      rw [stringFrom_digit hhigh (by decide), Nat.mul_zero, Nat.zero_add]
    _ = stringFrom false (c :: held) .plain cs := by
      rw [stringFrom_lastDigit hlow (by omega), hvalue, Char.ofNat_toNat]

theorem stringFrom_escaped (c : Char) :
    stringFrom false held .plain (escaped c ++ cs) = stringFrom false (c :: held) .plain cs := by
  unfold escaped
  split_ifs with h1 h2 h3 h4 h5 h6 h7 h8
  iterate 7 (subst_vars; rfl)
  · exact stringFrom_numbered h8
  · have hcloses : StringState.plain.closes c = false := decide_eq_false h1
    rw [List.singleton_append, stringFrom, if_neg (by rw [hcloses]; exact Bool.false_ne_true)]
    simp only [stringStep, if_neg h2, if_neg h8]

/-- A string is read back. -/
theorem stringFrom_quoted (s : List Char) :
    stringFrom false held .plain (s.flatMap escaped ++ '"' :: cs) =
      .ok (String.ofList (held.reverse ++ s), cs) := by
  induction s generalizing held with
  | nil =>
    rw [List.append_nil]
    rfl
  | cons c s ih =>
    rw [List.flatMap_cons, List.append_assoc, stringFrom_escaped, ih]
    simp

theorem quoted_append (s : String) :
    quoted s ++ cs = '"' :: (s.toList.flatMap escaped ++ '"' :: cs) := by
  simp [quoted]

theorem string_quoted (s : String) :
    string (s.toList.flatMap escaped ++ '"' :: cs) = .ok (s, cs) := by
  rw [string, stringFrom_quoted, List.reverse_nil, List.nil_append, String.ofList_toList]

/-! ### Sizes -/

/-- The decimal of a size has no leading zero. -/
theorem toDigits_head {n : Nat} (hn : 0 < n) : (Nat.toDigits 10 n).head? ≠ some '0' := by
  induction n using Nat.strongRecOn with
  | ind n ih =>
    by_cases hlt : n < 10
    · have hdigit : ∀ d < 10, 0 < d → [Nat.digitChar d].head? ≠ some '0' := by decide
      rw [Nat.toDigits_of_lt_base hlt]
      exact hdigit n hlt hn
    · rw [Nat.toDigits_of_base_le (by decide) (by omega),
        List.head?_append_of_ne_nil _ Nat.toDigits_ne_nil]
      exact ih (n / 10) (by omega) (by omega)

theorem wholeDigits_repr (e : Refusal) (n : Nat) (h : Follows cs) :
    wholeDigits e (n.repr.toList ++ cs) = .ok (n.repr.toList, cs) := by
  have hdigit : ∀ d ∈ cs.head?, d.isDigit = false := by
    cases h <;> rintro _ ⟨⟩ <;> rfl
  obtain ⟨d, ds, hd, hisDigit⟩ := Number.exists_cons_repr n
  have hsplit := Text.split_before (fun c hc => Number.isDigit_of_mem_repr (n := n) hc) hdigit
  rw [hd] at hsplit ⊢
  rw [List.cons_append] at hsplit ⊢
  rw [wholeDigits]
  by_cases hzero : d = '0'
  · have hn : n = 0 := by
      by_contra hne
      have hhead := toDigits_head (Nat.pos_of_ne_zero hne)
      rw [← Nat.toList_repr, hd, hzero] at hhead
      exact hhead rfl
    subst hn
    obtain ⟨-, rfl⟩ := List.cons_eq_cons.1 (hd : ['0'] = d :: ds)
    rw [if_pos hzero, hzero]
    cases h <;> rfl
  · rw [if_neg hzero, if_pos hisDigit, Number.takeDigits, hsplit.1, hsplit.2]

theorem literal_repr (e : Refusal) (n : Nat) (h : Follows cs) :
    literal e (n.repr.toList ++ cs) = .ok (⟨n.repr.toList, none, none⟩, cs) := by
  rw [literal, wholeDigits_repr e n h]
  cases h <;> rfl

theorem number_repr {n : Nat} (hn : n ≤ Number.maxSize) (h : Follows cs) :
    number (n.repr.toList ++ cs) = .ok (.size n, cs) := by
  have hvalue : Number.digitsValue n.repr.toList = n :=
    (Number.readDigits?_eq_some.1 (Number.readDigits?_repr n)).2.2
  have hnumeral : Literal.numeral ⟨n.repr.toList, none, none⟩ = .size n := by
    rw [Literal.numeral, hvalue]
    exact if_pos (decide_eq_true hn)
  rw [number, bind_of_ok (literal_repr _ n h)]
  simp only [hnumeral]

theorem skipBlank_cons {c : Char} (h : isBlank c = false) : skipBlank (c :: cs) = c :: cs :=
  List.dropWhile_cons_of_neg (by rw [h]; exact Bool.false_ne_true)

theorem isBlank_of_isDigit {c : Char} (h : c.isDigit = true) : isBlank c = false := by
  rw [isBlank, Bool.eq_false_iff]
  intro hblank
  simp only [Bool.or_eq_true, decide_eq_true_eq] at hblank
  rcases hblank with ((rfl | rfl) | rfl) | rfl <;> exact absurd h (by decide)

/-- A size is read back. -/
theorem size_repr {n : Nat} (hn : n ≤ Number.maxSize) (h : Follows cs) :
    size (n.repr.toList ++ cs) = .ok (n, cs) := by
  have hnumber := number_repr hn h
  obtain ⟨d, ds, hd, hisDigit⟩ := Number.exists_cons_repr n
  rw [hd, List.cons_append] at hnumber ⊢
  rw [size, skipBlank_cons (isBlank_of_isDigit hisDigit)]
  simp only [if_pos hisDigit, hnumber]

/-! ### Words and strings in their places -/

theorem bool_truth (b : Bool) : bool (truth b ++ cs) = .ok (b, cs) := by
  cases b <;> rfl

theorem text_quoted (s : String) : text (quoted s ++ cs) = .ok (s, cs) := by
  rw [quoted_append]
  exact string_quoted s

theorem text?_optional (s : Option String) : text? (optional s ++ cs) = .ok (s, cs) := by
  cases s with
  | none => rfl
  | some s =>
    have htext : text (quoted s ++ cs) = .ok (s, cs) := text_quoted s
    rw [optional]
    rw [quoted_append] at htext ⊢
    show (text ('"' :: _)).map _ = _
    rw [htext]
    rfl

/-! ### Lists and objects -/

theorem nextItem_end (first : Bool) : nextItem first (']' :: cs) = .ok none := by
  cases first <;> rfl

theorem nextItem_object (first : Bool) :
    nextItem first (comma first ++ '{' :: cs) = .ok (some ('{' :: cs)) := by
  cases first <;> rfl

theorem nextKey_end (first : Bool) : nextKey first ('}' :: cs) = .ok none := by
  cases first <;> rfl

theorem nextKey_comma (first : Bool) (key : String) :
    nextKey first (comma first ++ (quoted key ++ cs)) = .ok (some (key, cs)) := by
  have hquote (cs : List Char) : nextKeyQuote first (comma first ++ '"' :: cs) = .ok (some cs) := by
    cases first <;> rfl
  rw [quoted_append, nextKey, hquote]
  show (string _).map some = _
  rw [string_quoted]
  rfl

theorem colon_cons (cs : List Char) : colon (':' :: cs) = .ok cs := rfl

end Json
end ScriptDebug
