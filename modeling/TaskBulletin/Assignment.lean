import TaskBulletin.Text.Basic

/-!
# Assignments in order

Names with values, each name once. Assigning to a name that is there changes its
value and keeps its place.
-/

namespace TaskBulletin

abbrev Assignments (α : Type) := List (Text × α)

namespace Assignments

variable {α : Type}

def assign : Assignments α → Text → α → Assignments α
  | [], name, value => [(name, value)]
  | (n, v) :: rest, name, value =>
    if n = name then (n, value) :: rest else (n, v) :: assign rest name value

def value? (as : Assignments α) (name : Text) : Option α :=
  (as.find? fun (n, _) => n == name).map Prod.snd

def ofList (pairs : List (Text × α)) : Assignments α :=
  pairs.foldl (fun as (name, value) => assign as name value) []

theorem mem_map_assign {as : Assignments α} {name n : Text} {value : α} :
    n ∈ (assign as name value).map Prod.fst ↔ n ∈ as.map Prod.fst ∨ n = name := by
  induction as with
  | nil => simp [assign]
  | cons a rest ih =>
    obtain ⟨m, v⟩ := a
    by_cases h : m = name
    · subst h
      simp only [assign, if_pos, List.map_cons, List.mem_cons]
      constructor
      · rintro (rfl | h)
        · exact Or.inr rfl
        · exact Or.inl (Or.inr h)
      · rintro ((rfl | h) | rfl)
        · exact Or.inl rfl
        · exact Or.inr h
        · exact Or.inl rfl
    · simp only [assign, if_neg h, List.map_cons, List.mem_cons, ih]
      exact or_assoc.symm

/-- No name occurs twice after an assignment, if none did before. -/
theorem nodup_assign {as : Assignments α} (h : (as.map Prod.fst).Nodup) (name : Text) (value : α) :
    ((assign as name value).map Prod.fst).Nodup := by
  induction as with
  | nil => simp [assign]
  | cons a rest ih =>
    obtain ⟨m, v⟩ := a
    simp only [List.map_cons, List.nodup_cons] at h
    by_cases hm : m = name
    · simp only [assign, if_pos hm, List.map_cons, List.nodup_cons]
      exact h
    · simp only [assign, if_neg hm, List.map_cons, List.nodup_cons]
      refine ⟨?_, ih h.2⟩
      intro hin
      rcases mem_map_assign.1 hin with hin | rfl
      · exact h.1 hin
      · exact hm rfl

end Assignments

end TaskBulletin
