/-
# Integers that are read back

The decimal of a size is read as that size up to the largest one, and the decimal
of a 32-bit integer as that integer. A size is read from digits with at most a plus
sign before them, and from nothing else (`readNat?_eq_some`).

Key definitions: `Number.Writes`.
Key theorems: `Number.readDigits?_repr`, `Number.readNat?_repr`, `Number.readInt?_repr`,
`Number.readNat?_eq_some`.
-/
import Mathlib
import ScriptDebug.Number.Literal

namespace ScriptDebug
namespace Number

/-! ### What is read as a number -/

/-- Digits with at most a plus sign before them, which stand for a size. -/
structure Writes (cs : List Char) (n : Nat) : Prop where
  digits : ∃ ds, (cs = ds ∨ cs = '+' :: ds) ∧ ds ≠ [] ∧ (∀ c ∈ ds, c.isDigit = true) ∧
    Nat.ofDigitChars 10 ds 0 = n
  le_maxSize : n ≤ maxSize

/-- What the digits of a number are read from. -/
theorem readDigits?_eq_some {ds : List Char} {n : Nat} :
    readDigits? ds = some n ↔
      ds ≠ [] ∧ (∀ c ∈ ds, c.isDigit = true) ∧ Nat.ofDigitChars 10 ds 0 = n := by
  have hvalue : digitsValue ds = Nat.ofDigitChars 10 ds 0 := rfl
  unfold readDigits?
  rw [← hvalue, ← List.all_eq_true]
  cases ds with
  | nil => simp
  | cons d ds => cases (d :: ds).all Char.isDigit <;> simp

theorem readNat?_plus (r : List Char) :
    readNat? ('+' :: r) = (readDigits? r).filter (· ≤ maxSize) := rfl

theorem readNat?_bare {cs : List Char} (h : ∀ r, cs ≠ '+' :: r) :
    readNat? cs = (readDigits? cs).filter (· ≤ maxSize) := by
  unfold readNat?
  split
  · rename_i r
    exact absurd rfl (h r)
  · rfl

theorem filter_readDigits?_eq_some {ds : List Char} {n : Nat} :
    (readDigits? ds).filter (· ≤ maxSize) = some n ↔ readDigits? ds = some n ∧ n ≤ maxSize := by
  rw [Option.filter_eq_some_iff, decide_eq_true_iff]

/-- What a size is read from. -/
theorem readNat?_eq_some {cs : List Char} {n : Nat} : readNat? cs = some n ↔ Writes cs n := by
  by_cases hplus : ∃ r, cs = '+' :: r
  · obtain ⟨r, rfl⟩ := hplus
    rw [readNat?_plus, filter_readDigits?_eq_some, readDigits?_eq_some]
    constructor
    · rintro ⟨hr, hn⟩
      exact ⟨⟨r, .inr rfl, hr⟩, hn⟩
    · rintro ⟨⟨ds, rfl | hds, hdigits⟩, hn⟩
      · -- a plus sign is no digit
        exact absurd (hdigits.2.1 '+' List.mem_cons_self) (by decide)
      · obtain ⟨-, rfl⟩ := List.cons_eq_cons.1 hds
        exact ⟨hdigits, hn⟩
  · have hbare : ∀ r, cs ≠ '+' :: r := fun r h => hplus ⟨r, h⟩
    rw [readNat?_bare hbare, filter_readDigits?_eq_some, readDigits?_eq_some]
    constructor
    · rintro ⟨hcs, hn⟩
      exact ⟨⟨cs, .inl rfl, hcs⟩, hn⟩
    · rintro ⟨⟨ds, rfl | rfl, hdigits⟩, hn⟩
      · exact ⟨hdigits, hn⟩
      · exact absurd rfl (hbare ds)

/-- A size is written without any other character than digits and a plus sign. -/
theorem Writes.forall_mem {cs : List Char} {n : Nat} (h : Writes cs n) :
    ∀ c ∈ cs, c.isDigit = true ∨ c = '+' := by
  obtain ⟨⟨ds, rfl | rfl, -, hds, -⟩, -⟩ := h
  · exact fun c hc => .inl (hds c hc)
  · exact List.forall_mem_cons.2 ⟨.inr rfl, fun c hc => .inl (hds c hc)⟩

/-! ### Decimals that are read back -/

theorem isDigit_of_mem_repr {n : Nat} {c : Char} (h : c ∈ n.repr.toList) : c.isDigit = true := by
  rw [Nat.toList_repr] at h
  exact Nat.isDigit_of_mem_toDigits (by decide) (by decide) h

/-- The decimal of a number starts with a digit. -/
theorem exists_cons_repr (n : Nat) : ∃ d ds, n.repr.toList = d :: ds ∧ d.isDigit = true := by
  have hne : n.repr.toList ≠ [] := by
    rw [Nat.toList_repr]
    exact Nat.toDigits_ne_nil
  obtain ⟨d, ds, hd⟩ := List.exists_cons_of_ne_nil hne
  exact ⟨d, ds, hd, isDigit_of_mem_repr (n := n) (hd ▸ List.mem_cons_self)⟩

theorem readDigits?_repr (n : Nat) : readDigits? n.repr.toList = some n := by
  obtain ⟨d, ds, hd, -⟩ := exists_cons_repr n
  refine readDigits?_eq_some.2 ⟨by simp [hd], fun c hc => isDigit_of_mem_repr hc, ?_⟩
  rw [Nat.toList_repr]
  exact Nat.ofDigitChars_ten_toDigits

/-- The decimal of an integer has digits, and a minus sign if it is below zero. -/
theorem isDigit_of_mem_toString {i : Int} {c : Char} (h : c ∈ (toString i).toList) :
    c.isDigit = true ∨ c = '-' := by
  cases i with
  | ofNat n => exact Or.inl (isDigit_of_mem_repr h)
  | negSucc n =>
    have hmem : c ∈ ("-" ++ (n + 1).repr).toList := h
    rw [String.toList_append, List.mem_append] at hmem
    rcases hmem with hmem | hmem
    · exact Or.inr (List.mem_singleton.1 hmem)
    · exact Or.inl (isDigit_of_mem_repr hmem)

/-- A number that passes a check is read under it. -/
theorem filter_readDigits?_repr {n : Nat} {p : Nat → Bool} (h : p n = true) :
    (readDigits? n.repr.toList).filter p = some n := by
  rw [readDigits?_repr, Option.filter_some, if_pos h]

/-- A size is read back. -/
theorem readNat?_repr {n : Nat} (h : n ≤ maxSize) : readNat? n.repr.toList = some n :=
  readNat?_eq_some.2 ⟨⟨_, .inl rfl, readDigits?_eq_some.1 (readDigits?_repr n)⟩, h⟩

/-- A 32-bit integer is read back. -/
theorem readInt?_repr {i : Int} (hlow : -2 ^ 31 ≤ i) (hhigh : i < 2 ^ 31) :
    readInt? (toString i).toList = some i := by
  cases i with
  | ofNat n =>
    have hn : n < 1 <<< 31 := by
      have hlt : (n : Int) < 2 ^ 31 := hhigh
      rw [Nat.one_shiftLeft]
      omega
    have hread := filter_readDigits?_repr (p := fun n => n < 1 <<< 31) (decide_eq_true hn)
    show readInt? n.repr.toList = some (Int.ofNat n)
    obtain ⟨d, ds, hd, hdigit⟩ := exists_cons_repr n
    rw [hd] at hread ⊢
    unfold readInt?
    split
    · rename_i heq
      obtain ⟨rfl, -⟩ := List.cons_eq_cons.1 heq
      cases hdigit
    · rename_i heq
      obtain ⟨rfl, -⟩ := List.cons_eq_cons.1 heq
      cases hdigit
    · rw [hread]
      rfl
  | negSucc n =>
    have hn : n + 1 ≤ 1 <<< 31 := by
      rw [Nat.one_shiftLeft]
      omega
    have hread := filter_readDigits?_repr (p := fun n => n ≤ 1 <<< 31) (decide_eq_true hn)
    have htext : (toString (Int.negSucc n)).toList = '-' :: (n + 1).repr.toList := by
      show ("-" ++ (n + 1).repr).toList = _
      rw [String.toList_append]
      rfl
    rw [htext]
    simp only [readInt?]
    rw [hread]
    rfl

end Number
end ScriptDebug
