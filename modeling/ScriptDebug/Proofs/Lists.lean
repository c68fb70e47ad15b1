/-
# Lists that are built up and taken apart

A list to which something is appended only if it is not there is the list of what
was appended, each where it comes first (`eraseDups_concat`): the registry of
breakpoints and the pool of constants are such lists. What is shown on a line of
its own can be told from what stands between line feeds
(`mem_splitOn_intercalate`).

Key theorems: `eraseDups_concat`, `nodup_eraseDups`, `mem_splitOn_intercalate`.
-/
import Mathlib

namespace ScriptDebug

section
variable {α : Type} [DecidableEq α]

/-- What is appended is dropped if it is there already. -/
theorem eraseDups_concat (l : List α) (a : α) :
    (l ++ [a]).eraseDups = if a ∈ l then l.eraseDups else l.eraseDups ++ [a] := by
  rw [List.eraseDups_append]
  split
  · rename_i ha
    simp [List.removeAll, ha]
  · rename_i ha
    simp [List.removeAll, List.eraseDups_cons, ha]

theorem nodup_eraseDups (l : List α) : l.eraseDups.Nodup := by
  induction l using List.reverseRecOn with
  | nil => exact List.nodup_nil
  | append_singleton l a ih =>
    rw [eraseDups_concat]
    split
    · exact ih
    · rename_i ha
      exact List.nodup_append_comm.1 (List.nodup_cons.2 ⟨mt List.mem_eraseDups.1 ha, ih⟩)

/-- A part without the separator is split off again, whatever the other parts hold. -/
theorem mem_splitOn_intercalate {x : α} {l : List α} {ls : List (List α)} (hl : l ∈ ls)
    (hx : x ∉ l) : l ∈ ([x].intercalate ls).splitOn x := by
  induction ls with
  | nil => cases hl
  | cons l' ls ih =>
    cases ls with
    | nil =>
      obtain rfl := List.mem_singleton.1 hl
      have hone : [x].intercalate [l] = l := by simp [List.intercalate]
      rw [hone, List.splitOn_eq_singleton hx]
      exact List.mem_singleton_self l
    | cons l'' ls =>
      have hcons : [x].intercalate (l' :: l'' :: ls) = l' ++ x :: [x].intercalate (l'' :: ls) := by
        simp [List.intercalate]
      rw [hcons, List.splitOn_append_cons_self, List.mem_append]
      rcases List.mem_cons.1 hl with rfl | hl
      · left
        rw [List.splitOn_eq_singleton hx]
        exact List.mem_singleton_self l
      · exact .inr (ih hl)

end

end ScriptDebug
