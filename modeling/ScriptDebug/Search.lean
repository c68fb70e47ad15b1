/-
# Searching an ascending table

`Search.count key x n` is the number of the first `n` keys that are at most
`x`, found by halving. It is what a line index and a table of code positions
need: the entry that covers `x` is the one before that count.

Key definitions: `Search.halve`, `Search.count`.
Key theorems: `Search.lt_count_iff`, `Search.count_mono`.
-/

namespace ScriptDebug
namespace Search

/-- The first index from `lo` on, and at most `hi`, whose key is above `x`. -/
def halve (key : Nat → Nat) (x lo hi : Nat) : Nat :=
  if lo < hi then
    let mid := (lo + hi) / 2
    if key mid ≤ x then halve key x (mid + 1) hi else halve key x lo mid
  else lo
termination_by hi - lo

/-- How many of the first `n` keys are at most `x`. -/
def count (key : Nat → Nat) (x n : Nat) : Nat := halve key x 0 n

theorem halve_le (key : Nat → Nat) (x lo hi : Nat) (h : lo ≤ hi) :
    lo ≤ halve key x lo hi ∧ halve key x lo hi ≤ hi := by
  fun_induction halve key x lo hi <;> grind

/-- Every key before the answer is at most `x`. -/
theorem le_of_lt_halve {key : Nat → Nat} (x lo hi : Nat)
    (mono : ∀ i j, i ≤ j → j < hi → key i ≤ key j) :
    ∀ i, lo ≤ i → i < halve key x lo hi → key i ≤ x := by
  fun_induction halve key x lo hi with
  | case1 lo hi _ mid hm ih =>
    intro i _ hi'
    by_cases hle : i ≤ mid
    · exact Nat.le_trans (mono i mid hle (by omega)) hm
    · exact ih mono i (by omega) hi'
  | case2 lo hi _ mid _ ih => exact ih fun i j hij hj => mono i j hij (by omega)
  | case3 => intro i _ _; omega

/-- Every key from the answer on is above `x`. -/
theorem lt_of_halve_le {key : Nat → Nat} (x lo hi : Nat)
    (mono : ∀ i j, i ≤ j → j < hi → key i ≤ key j) :
    ∀ i, halve key x lo hi ≤ i → i < hi → x < key i := by
  fun_induction halve key x lo hi with
  | case1 lo hi _ mid _ ih => exact ih mono
  | case2 lo hi _ mid hm ih =>
    intro i hle hi'
    by_cases hlt : i < mid
    · exact ih (fun i j hij hj => mono i j hij (by omega)) i hle hlt
    · have := mono mid i (by omega) hi'
      omega
  | case3 => intro i _ _; omega

variable {key : Nat → Nat} {n : Nat}

/-- The entries that are counted are those whose key is at most `x`. -/
theorem lt_count_iff (mono : ∀ i j, i ≤ j → j < n → key i ≤ key j) {x i : Nat} (h : i < n) :
    i < count key x n ↔ key i ≤ x := by
  constructor
  · exact le_of_lt_halve x 0 n mono i (Nat.zero_le i)
  · intro hle
    rcases Nat.lt_or_ge i (count key x n) with hlt | hge
    · exact hlt
    · have := lt_of_halve_le x 0 n mono i hge h
      omega

theorem count_le (x : Nat) : count key x n ≤ n := (halve_le key x 0 n (Nat.zero_le n)).2

theorem count_mono (mono : ∀ i j, i ≤ j → j < n → key i ≤ key j) {x y : Nat} (h : x ≤ y) :
    count key x n ≤ count key y n := by
  rcases Nat.lt_or_ge (count key y n) (count key x n) with hlt | hge
  · have hn : count key y n < n := Nat.lt_of_lt_of_le hlt (count_le x)
    have hx := (lt_count_iff mono hn).1 hlt
    have hy := (lt_count_iff mono hn).2 (Nat.le_trans hx h)
    omega
  · exact hge

end Search
end ScriptDebug
