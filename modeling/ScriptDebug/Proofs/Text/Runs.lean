/-
# Runs of characters and their bytes

A run of characters of a kind is split off a text exactly where the kind ends
(`Text.split_before`), so what stands between blanks is what is left when the
blanks are taken off (`Text.trim_enclosed`). The bytes of a text are those of its
parts.

Key definitions: `Text.Trimmed`.
Key theorems: `Text.split_before`, `Text.trim_enclosed`, `Text.trim_eq_nil_iff`,
`Text.bytes_append`.
-/
import Mathlib.Data.List.TakeWhile
import Mathlib.Data.String.Basic
import ScriptDebug.Text.Blank

namespace ScriptDebug
namespace Text

/-! ### Runs -/

/-- Nothing is taken beyond the characters that belong together. -/
theorem split_before {p : Char → Bool} {cs rest : List Char} (hcs : ∀ c ∈ cs, p c = true)
    (hrest : ∀ d ∈ rest.head?, p d = false) :
    (cs ++ rest).takeWhile p = cs ∧ (cs ++ rest).dropWhile p = rest := by
  have hstop : rest.takeWhile p = [] ∧ rest.dropWhile p = rest := by
    cases rest with
    | nil => exact ⟨rfl, rfl⟩
    | cons d rest =>
      have hd : p d = false := hrest d rfl
      simp [hd]
  rw [List.takeWhile_append_of_pos hcs, List.dropWhile_append_of_pos hcs, hstop.1, hstop.2,
    List.append_nil]
  exact ⟨rfl, rfl⟩

/-- The text neither begins nor ends with a blank. -/
structure Trimmed (s : List Char) : Prop where
  first : ∀ c ∈ s.head?, isBlank c = false
  last : ∀ c ∈ s.getLast?, isBlank c = false

theorem trimmed_nil : Trimmed [] := ⟨nofun, nofun⟩

/-- The first of two parts begins the text, and the last one ends it. -/
theorem Trimmed.append {s mid s' : List Char} (h : Trimmed s) (h' : Trimmed s') (hs : s ≠ [])
    (hs' : s' ≠ []) : Trimmed (s ++ mid ++ s') := by
  refine ⟨fun c hc => h.first c ?_, fun c hc => h'.last c ?_⟩
  · obtain ⟨d, s, rfl⟩ := List.exists_cons_of_ne_nil hs
    exact hc
  · rwa [List.getLast?_append, List.getLast?_eq_some_getLast hs', Option.some_or,
      ← List.getLast?_eq_some_getLast hs'] at hc

theorem trimmed_of_all {s : List Char} (h : ∀ c ∈ s, isBlank c = false) : Trimmed s :=
  ⟨fun c hc => h c (List.mem_of_mem_head? hc), fun c hc => h c (List.mem_of_getLast? hc)⟩

/-- What stands between blanks is left when the blanks are taken off. -/
theorem trim_enclosed {before s after : List Char} (hbefore : ∀ c ∈ before, isBlank c = true)
    (hafter : ∀ c ∈ after, isBlank c = true) (hs : Trimmed s) :
    trim (before ++ s ++ after) = s := by
  cases s with
  | nil =>
    have hall : ∀ c ∈ before ++ after, isBlank c = true :=
      List.forall_mem_append.2 ⟨hbefore, hafter⟩
    have hnone : (before ++ after ++ []).dropWhile isBlank = [] := (split_before hall (by nofun)).2
    rw [List.append_nil] at hnone
    unfold trim trimStart
    rw [List.append_nil, hnone]
    rfl
  | cons c s =>
    have hstart : trimStart (before ++ (c :: s) ++ after) = c :: s ++ after := by
      unfold trimStart
      rw [List.append_assoc]
      exact (split_before hbefore fun d hd => hs.first d (by simpa using hd)).2
    unfold trim
    rw [hstart]
    unfold trimEnd
    rw [List.reverse_append, (split_before (fun d hd => hafter d (List.mem_reverse.1 hd))
      fun d hd => hs.last d (by rwa [List.head?_reverse] at hd)).2, List.reverse_reverse]

/-- There are no blanks to take off. -/
theorem Trimmed.trim_eq {s : List Char} (h : Trimmed s) : trim s = s := by
  have hleft := trim_enclosed (List.forall_mem_nil _) (List.forall_mem_nil _) h
  rwa [List.append_nil] at hleft

/-- Nothing is left of a text exactly if all of it is blank. -/
theorem trim_eq_nil_iff {s : List Char} : trim s = [] ↔ ∀ c ∈ s, isBlank c = true := by
  constructor
  · intro h
    have hstart : ∀ c ∈ trimStart s, isBlank c = true := by
      simpa [trim, trimEnd, List.dropWhile_eq_nil_iff] using h
    have hnil : trimStart s = [] := by
      by_contra hne
      have hblank := hstart _ (List.head_mem hne)
      exact Bool.false_ne_true ((List.head_dropWhile_not isBlank hne).symm.trans hblank)
    exact List.dropWhile_eq_nil_iff.1 hnil
  · intro h
    have hnone : trim (s ++ [] ++ []) = [] := trim_enclosed h nofun trimmed_nil
    rwa [List.append_nil, List.append_nil] at hnone

theorem isEmpty_trim (s : List Char) : (trim s).isEmpty = s.all isBlank := by
  rw [Bool.eq_iff_iff, List.isEmpty_iff, trim_eq_nil_iff, List.all_eq_true]

/-! ### Bytes -/

theorem foldl_bytes (n : Nat) (s : List Char) :
    s.foldl (fun n c => n + c.utf8Size) n = n + bytes s := by
  induction s generalizing n with
  | nil => rfl
  | cons c s ih =>
    rw [bytes, List.foldl_cons, List.foldl_cons, ih, ih (0 + _)]
    omega

theorem bytes_cons (c : Char) (s : List Char) : bytes (c :: s) = c.utf8Size + bytes s := by
  rw [bytes, List.foldl_cons, foldl_bytes, Nat.zero_add]

theorem bytes_append (s s' : List Char) : bytes (s ++ s') = bytes s + bytes s' := by
  rw [bytes, List.foldl_append, foldl_bytes]
  rfl

theorem utf8ByteSize_ofList (s : List Char) : (String.ofList s).utf8ByteSize = bytes s := by
  rw [String.utf8ByteSize_ofList]
  induction s with
  | nil => rfl
  | cons c s ih => rw [String.utf8Len_cons, bytes_cons, ih, Nat.add_comm]

theorem utf8ByteSize_eq (s : String) : s.utf8ByteSize = bytes s.toList := by
  rw [← utf8ByteSize_ofList, String.ofList_toList]

/-- A text of characters of one byte has as many bytes as characters. -/
theorem bytes_eq_length {s : List Char} (h : ∀ c ∈ s, c.utf8Size = 1) : bytes s = s.length := by
  induction s with
  | nil => rfl
  | cons c s ih =>
    obtain ⟨hc, hs⟩ := List.forall_mem_cons.1 h
    rw [bytes_cons, hc, ih hs, List.length_cons]
    omega

end Text
end ScriptDebug
