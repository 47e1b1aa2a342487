import TaskBulletin.Text.Basic

/-!
# The spacing of a finished body

Line ends become line feeds, three or more of them in a row become two, and the
blanks at both ends go.
-/

namespace TaskBulletin.Text

/-- Write a carriage return, with or without a line feed after it, as a line feed. -/
def unifyLineEnds : Text → Text
  | [] => []
  | '\r' :: '\n' :: t => '\n' :: unifyLineEnds t
  | c :: t => (if c = '\r' then '\n' else c) :: unifyLineEnds t

/-- Drop every line feed that follows two others; `seen` counts those just before
the text. -/
def limitLineFeeds : (seen : Nat) → Text → Text
  | _, [] => []
  | seen, c :: t =>
    if c = '\n' then
      if seen < 2 then c :: limitLineFeeds (seen + 1) t else limitLineFeeds seen t
    else c :: limitLineFeeds 0 t

/-- The normal form of a body's spacing. -/
def normalizeSpacing (t : Text) : Text := trim (limitLineFeeds 0 (unifyLineEnds t))

/-- A line feed belongs to the carriage return before it. -/
theorem unifyLineEnds_return (t : Text) :
    unifyLineEnds ('\r' :: t) =
      '\n' :: unifyLineEnds (if t.head? = some '\n' then t.tail else t) := by
  cases t with
  | nil => rfl
  | cons c t =>
    by_cases hc : c = '\n'
    · subst hc
      rfl
    · rw [unifyLineEnds]
      · simp [hc]
      · simpa using hc

theorem unifyLineEnds_cons {c : Char} (hc : c ≠ '\r') (t : Text) :
    unifyLineEnds (c :: t) = c :: unifyLineEnds t := by
  rw [unifyLineEnds]
  · rw [if_neg hc]
  · simp [hc]

theorem unifyLineEnds_append {u : Text} (hu : '\r' ∉ u) (t : Text) :
    unifyLineEnds (u ++ t) = u ++ unifyLineEnds t := by
  induction u with
  | nil => rfl
  | cons c u ih =>
    obtain ⟨hc, hu⟩ := not_or.mp (fun h => hu (List.mem_cons.mpr h))
    rw [List.cons_append, unifyLineEnds_cons (Ne.symm hc), ih hu]
    rfl

theorem limitLineFeeds_append {u : Text} (hne : u ≠ []) (hu : '\n' ∉ u) (seen : Nat) (t : Text) :
    limitLineFeeds seen (u ++ t) = u ++ limitLineFeeds 0 t := by
  induction u generalizing seen with
  | nil => exact absurd rfl hne
  | cons c u ih =>
    obtain ⟨hc, hu⟩ := not_or.mp (fun h => hu (List.mem_cons.mpr h))
    rw [List.cons_append, limitLineFeeds, if_neg (Ne.symm hc)]
    cases u with
    | nil => rfl
    | cons d u =>
      rw [ih (by simp) hu]
      rfl

end TaskBulletin.Text
