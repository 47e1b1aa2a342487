import TaskBulletin.Text.Basic
import Mathlib.Data.List.DropRight

/-!
# What trimming leaves

What is dropped at an end is all of one kind, and what is left does not begin or end in that
kind. So a text is its trimmed text with blanks around it, and a text without blanks at its
ends is left as it is.
-/

namespace TaskBulletin.Text

theorem trimEnd_eq_rdropWhile (t : Text) : trimEnd t = t.rdropWhile isBlank := rfl

theorem rdropWhile_append_of_pos {p : Char → Bool} {t u : Text} (h : ∀ c ∈ u, p c = true) :
    (t ++ u).rdropWhile p = t.rdropWhile p := by
  rw [List.rdropWhile, List.reverse_append, List.dropWhile_append_of_pos (by simpa using h),
    List.rdropWhile]

theorem rdropWhile_append_of_neg {p : Char → Bool} {t u : Text} (hu : u ≠ [])
    (h : ∀ c ∈ u, p c = false) : (t ++ u).rdropWhile p = t ++ u := by
  refine List.rdropWhile_eq_self_iff.mpr fun hne => ?_
  rw [List.getLast_append_of_ne_nil hne hu, h _ (List.getLast_mem hu)]
  exact Bool.false_ne_true

theorem trimEnd_append_of_isBlank {t u : Text} (h : ∀ c ∈ u, isBlank c = true) :
    trimEnd (t ++ u) = trimEnd t :=
  rdropWhile_append_of_pos h

theorem trimEnd_append_of_not_isBlank {t u : Text} (hu : u ≠ []) (h : ∀ c ∈ u, isBlank c = false) :
    trimEnd (t ++ u) = t ++ u :=
  rdropWhile_append_of_neg hu h

theorem exists_append_trim (t : Text) : ∃ before after, t = before ++ trim t ++ after ∧
    (∀ c ∈ before, isBlank c = true) ∧ ∀ c ∈ after, isBlank c = true := by
  refine ⟨t.takeWhile isBlank, (trimStart t).rtakeWhile isBlank, ?_,
    List.all_eq_true.mp List.all_takeWhile, fun _ => List.mem_rtakeWhile_imp⟩
  rw [List.append_assoc, trim, trimEnd_eq_rdropWhile, List.rdropWhile_append_rtakeWhile, trimStart,
    List.takeWhile_append_dropWhile]

theorem isInfix_trim (t : Text) : trim t <:+: t := by
  obtain ⟨before, after, ht, -, -⟩ := exists_append_trim t
  exact ⟨before, after, ht.symm⟩

theorem mem_of_mem_trim {t : Text} {c : Char} (h : c ∈ trim t) : c ∈ t :=
  (isInfix_trim t).mem h

theorem length_trim_le (t : Text) : (trim t).length ≤ t.length := (isInfix_trim t).length_le

theorem not_isBlank_of_mem_head?_trim {t : Text} {c : Char} (h : c ∈ (trim t).head?) :
    isBlank c = false := by
  have hhead : (trimStart t).head? = some c := by
    obtain ⟨rest, hrest⟩ := List.rdropWhile_prefix isBlank (trimStart t)
    rw [← hrest, List.head?_append, ← trimEnd_eq_rdropWhile, ← trim, Option.mem_def.mp h]
    rfl
  have hnot := List.head?_dropWhile_not isBlank t
  rw [← trimStart, hhead] at hnot
  simpa using hnot

theorem not_isBlank_of_mem_getLast?_trim {t : Text} {c : Char} (h : c ∈ (trim t).getLast?) :
    isBlank c = false := by
  obtain ⟨hne, rfl⟩ := List.mem_getLast?_eq_getLast h
  rw [← Bool.not_eq_true]
  exact List.rdropWhile_last_not isBlank (trimStart t) hne

theorem trim_eq_self {t : Text} (hhead : ∀ c ∈ t.head?, isBlank c = false)
    (hlast : ∀ c ∈ t.getLast?, isBlank c = false) : trim t = t := by
  have hstart : trimStart t = t := List.dropWhile_eq_self_iff.mpr fun hl => by
    simp [hhead t[0] (by rw [List.head?_eq_getElem?, List.getElem?_eq_getElem hl]; rfl)]
  rw [trim, hstart, trimEnd_eq_rdropWhile]
  exact List.rdropWhile_eq_self_iff.mpr fun hne => by
    simp [hlast _ (List.getLast_mem_getLast? hne)]

end TaskBulletin.Text
