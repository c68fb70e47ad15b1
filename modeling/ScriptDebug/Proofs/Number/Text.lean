/-
# Numbers that are read back

The text of a number that is not finite or that is below zero is no decimal, so it is not
read back. Every other text has digits and at most a point among them, and starts with
a digit (`Number.plain_text`), which is what a number in a script looks like.

Key definitions: `Number.ReadsBack`, `Number.Plain`.
Key theorems: `Number.plain_text`.
-/
import ScriptDebug.Number.Literal
import ScriptDebug.Number.Shortest

namespace ScriptDebug
namespace Number

/-- The text of the number is read as the number. What is no finite number, or is below zero, is not
read back. -/
def ReadsBack (x : Float) : Prop := readDecimal? (text x).toList = some x

instance (x : Float) : Decidable (ReadsBack x) := inferInstanceAs (Decidable (_ = _))

/-- Digits and points, of which a digit comes first. -/
def Plain (cs : List Char) : Prop :=
  ∃ d ds, cs = d :: ds ∧ d.isDigit = true ∧ ∀ c ∈ ds, (c.isDigit || c = '.') = true

theorem plain_of_digits {ds : List Char} (hne : ds ≠ []) (h : ∀ c ∈ ds, c.isDigit = true) :
    Plain ds := by
  obtain ⟨d, ds, rfl⟩ := List.exists_cons_of_ne_nil hne
  refine ⟨d, ds, rfl, h d List.mem_cons_self, fun c hc => ?_⟩
  rw [h c (List.mem_cons_of_mem d hc), Bool.true_or]

theorem Plain.append {cs more : List Char} (h : Plain cs)
    (hmore : ∀ c ∈ more, (c.isDigit || c = '.') = true) : Plain (cs ++ more) := by
  obtain ⟨d, ds, rfl, hd, hds⟩ := h
  refine ⟨d, ds ++ more, List.cons_append, hd, fun c hc => ?_⟩
  rcases List.mem_append.1 hc with hc | hc
  · exact hds c hc
  · exact hmore c hc

/-- A decimal without exponent starts with a digit: zeros are filled up before the point. -/
theorem plain_positional (d : Decimal) : Plain d.positional.toList := by
  have hs : (toString d.digits).toList = Nat.toDigits 10 d.digits := by
    rw [Nat.toString_eq_ofList_toDigits, String.toList_ofList]
  have hdigits : ∀ c ∈ (toString d.digits).toList, c.isDigit = true := fun c hc =>
    Nat.isDigit_of_mem_toDigits (by decide) (by decide) (hs ▸ hc)
  have hzeros (n : Nat) : ∀ c ∈ List.replicate n '0', c.isDigit = true := by
    intro c hc
    rw [List.eq_of_mem_replicate hc]
    rfl
  unfold Decimal.positional
  dsimp only
  split
  · have hne : (toString d.digits).toList ≠ [] := by
      rw [hs]
      exact Nat.toDigits_ne_nil
    rw [String.toList_append, String.toList_ofList]
    refine (plain_of_digits hne hdigits).append fun c hc => ?_
    rw [hzeros _ c hc, Bool.true_or]
  · generalize hplaces : (-d.exponent).toNat = places
    generalize hpadded : List.replicate (places + 1 - (toString d.digits).length) '0' ++
      (toString d.digits).toList = padded
    have hall : ∀ c ∈ padded, c.isDigit = true := by
      intro c hc
      rw [← hpadded] at hc
      rcases List.mem_append.1 hc with hc | hc
      · exact hzeros _ c hc
      · exact hdigits c hc
    have hlength : places < padded.length := by
      rw [← hpadded, List.length_append, List.length_replicate, String.length_toList]
      omega
    rw [String.toList_ofList]
    refine Plain.append (plain_of_digits ?_ fun c hc => hall c (List.mem_of_mem_take hc))
      fun c hc => ?_
    · intro hnil
      have := congrArg List.length hnil
      rw [List.length_take, List.length_nil] at this
      omega
    · rcases List.mem_cons.1 hc with rfl | hc
      · rfl
      · rw [hall c (List.mem_of_mem_drop hc), Bool.true_or]

theorem ReadsBack.ne_none {x : Float} {s : String} (h : ReadsBack x) (hs : text x = s) :
    readDecimal? s.toList ≠ none := by
  rw [ReadsBack, hs] at h
  rw [h]
  exact Option.some_ne_none x

/-- The words for what is no finite number are no decimals. -/
theorem ReadsBack.finite {x : Float} (h : ReadsBack x) : ¬ x.isNaN = true ∧ ¬ x.isInf = true := by
  have hnan : ¬ x.isNaN = true := by
    intro hnan
    have ht : text x = "NaN" := if_pos hnan
    exact h.ne_none ht rfl
  refine ⟨hnan, fun hinf => ?_⟩
  have ht : text x = if x > 0 then "Infinity" else "-Infinity" := by
    unfold text
    rw [if_neg hnan, if_pos hinf]
  by_cases hpos : x > 0
  · rw [if_pos hpos] at ht
    exact h.ne_none ht rfl
  · rw [if_neg hpos] at ht
    exact h.ne_none ht rfl

/-- **A text that is read back starts with a digit and has no sign and no exponent.** -/
theorem plain_text {x : Float} (h : ReadsBack x) : Plain (text x).toList := by
  obtain ⟨hnan, hinf⟩ := h.finite
  by_cases hzero : (x == 0) = true
  · have ht : text x = "0" := by
      unfold text
      rw [if_neg hnan, if_neg hinf, if_pos hzero]
    rw [ht]
    exact ⟨'0', [], rfl, rfl, nofun⟩
  · have ht : text x = if x < 0 then "-" ++ (shortest x.abs).positional
        else (shortest x.abs).positional := by
      unfold text
      rw [if_neg hnan, if_neg hinf, if_neg hzero]
    by_cases hneg : x < 0
    · rw [if_pos hneg] at ht
      refine absurd ?_ (h.ne_none ht)
      rw [String.toList_append]
      rfl
    · rw [if_neg hneg] at ht
      rw [ht]
      exact plain_positional _

end Number
end ScriptDebug
