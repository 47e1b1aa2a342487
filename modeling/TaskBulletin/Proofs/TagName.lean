import TaskBulletin.Proofs.Spelling

/-!
# Reading the names of tags

A tag's name is written in capitals in the patterns and in letters of either case in
a text, and a mark that is no letter follows it in both. So a word made of a name and
a mark is read exactly where that name and that mark stand: no name is taken for
another, and no opening tag for a closing one.
-/

namespace TaskBulletin

namespace Text

def capitals : Text := "ABCDEFGHIJKLMNOPQRSTUVWXYZ".toList

/-- The characters that may follow a name or a bracket in place of a letter. -/
def marks : Text := "]= /".toList

theorem eq_toUpper_or_eq_toLower (c : Char) : c = c.toUpper ∨ c = c.toUpper.toLower := by
  by_cases h : 97 ≤ c.toNat ∧ c.toNat < 123
  · have hall : ∀ n < 123, 97 ≤ n → Char.ofNat n = (Char.ofNat n).toUpper.toLower := by
      decide +kernel
    have hc := hall c.toNat h.2 h.1
    rw [Char.ofNat_toNat] at hc
    exact .inr hc
  · left
    unfold Char.toUpper
    split
    · rename_i hl
      simp only [UInt32.le_iff_toNat_le] at hl
      change 97 ≤ c.toNat ∧ c.toNat ≤ 122 at hl
      omega
    · rfl

theorem spells_capital {w c : Char} (hw : w ∈ capitals) (hc : c.toUpper ∈ capitals) :
    spells w c = (w == c.toUpper) := by
  have hall : ∀ w ∈ capitals, ∀ v ∈ capitals,
      spells w v = (w == v) ∧ spells w v.toLower = (w == v) := by decide +kernel
  obtain ⟨hu, hl⟩ := hall w hw c.toUpper hc
  rcases eq_toUpper_or_eq_toLower c with h | h
  · conv_lhs => rw [h]
    exact hu
  · conv_lhs => rw [h]
    exact hl

theorem toUpper_mem_capitals {name s : Text} (hn : ∀ c ∈ name, c ∈ capitals)
    (hs : s.map Char.toUpper = name) : ∀ c ∈ s, c.toUpper ∈ capitals := by
  intro c hc
  rw [← hs] at hn
  exact hn _ (List.mem_map_of_mem hc)

theorem spells_mark_letter {x c : Char} (hx : x ∈ marks) (hc : c.toUpper ∈ capitals) :
    spells x c = false := by
  have hall : ∀ x ∈ marks, ∀ v ∈ capitals, spells x v = false ∧ spells x v.toLower = false := by
    decide +kernel
  obtain ⟨hu, hl⟩ := hall x hx c.toUpper hc
  rcases eq_toUpper_or_eq_toLower c with h | h
  · rw [h, hu]
  · rw [h, hl]

theorem spells_capital_mark {w y : Char} (hw : w ∈ capitals) (hy : y ∈ marks) :
    spells w y = false := by
  have hall : ∀ w ∈ capitals, ∀ y ∈ marks, spells w y = false := by decide +kernel
  exact hall w hw y hy

theorem spells_mark {x y : Char} (hx : x ∈ marks) (hy : y ∈ marks) : spells x y = (x == y) := by
  have hall : ∀ x ∈ marks, ∀ y ∈ marks, spells x y = (x == y) := by decide +kernel
  exact hall x hx y hy

/-- A name and a mark are read where that name and that mark stand. -/
theorem readWord_name {name s : Text} {x y : Char} (hn : ∀ c ∈ name, c ∈ capitals)
    (hs : ∀ c ∈ s, c.toUpper ∈ capitals) (hx : x ∈ marks) (hy : y ∈ marks) (more rest : Text) :
    readWord (name ++ x :: more) (s ++ y :: rest) =
      if name = s.map Char.toUpper ∧ x = y then
        (readWord more rest).map fun (spelled, u) => (s ++ y :: spelled, u)
      else none := by
  induction name generalizing s with
  | nil =>
    cases s with
    | nil =>
      simp only [List.nil_append, readWord, spells_mark hx hy, List.map_nil, true_and, beq_iff_eq]
    | cons c s =>
      have hc := spells_mark_letter hx (hs c (List.mem_cons_self ..))
      simp [readWord, hc]
  | cons w name ih =>
    have hw := hn w (List.mem_cons_self ..)
    cases s with
    | nil => simp [readWord, spells_capital_mark hw hy]
    | cons c s =>
      have hc := spells_capital hw (hs c (List.mem_cons_self ..))
      have ih := ih (fun d hd => hn d (List.mem_cons_of_mem _ hd))
        fun d hd => hs d (List.mem_cons_of_mem _ hd)
      simp only [List.cons_append, readWord, hc, beq_iff_eq, ih, List.map_cons, List.cons.injEq]
      by_cases h : w = c.toUpper
      · simp only [h, if_true, true_and]
        split
        · simp [Function.comp_def]
        · rfl
      · simp [h]

/-- A word of capitals is read at a name only if it begins the name. -/
theorem readWord_eq_none_of_not_prefix {w s rest : Text} (hw : ∀ c ∈ w, c ∈ capitals)
    (hs : ∀ c ∈ s, c.toUpper ∈ capitals) (hrest : ∀ y ∈ rest.head?, y ∈ marks)
    (h : ¬ w <+: s.map Char.toUpper) : readWord w (s ++ rest) = none := by
  induction w generalizing s with
  | nil => exact absurd List.nil_prefix h
  | cons x w ih =>
    have hx := hw x (List.mem_cons_self ..)
    cases s with
    | nil =>
      cases rest with
      | nil => rfl
      | cons y rest => simp [readWord, spells_capital_mark hx (hrest y rfl)]
    | cons c s =>
      have hc := spells_capital hx (hs c (List.mem_cons_self ..))
      by_cases he : x = c.toUpper
      · have hnot : ¬ w <+: s.map Char.toUpper := by
          intro hp
          rw [List.map_cons, he, List.cons_prefix_cons] at h
          exact h ⟨rfl, hp⟩
        have ih := ih (fun d hd => hw d (List.mem_cons_of_mem _ hd))
          (fun d hd => hs d (List.mem_cons_of_mem _ hd)) hnot
        simp [readWord, ih]
      · simp [readWord, hc, he]

end Text

namespace Pattern

theorem read_word_bracket (w t : Text) :
    (word ('[' :: w)).read ('[' :: t) =
      (Text.readWord w t).map fun (spelled, u) => ('[' :: spelled, u) := by
  simp [word, Text.readWord, spells_bracket]

section

variable {name s : Text} {x y : Char}

theorem silent_tag (hn : ∀ c ∈ name, c ∈ Text.capitals) (hs : ∀ c ∈ s, c.toUpper ∈ Text.capitals)
    (hx : x ∈ Text.marks) (hy : y ∈ Text.marks) (hne : ¬ (name = s.map Char.toUpper ∧ x = y))
    (more : Text) {tail : Text} (ht : '[' ∉ tail) :
    (word ('[' :: name ++ x :: more)).Silent ('[' :: s ++ y :: tail) := by
  have hbody : '[' ∉ s ++ y :: tail := by
    intro hm
    rcases List.mem_append.mp hm with hm | hm
    · exact absurd (hs _ hm) (by decide)
    · rcases List.mem_cons.mp hm with rfl | hm
      · exact absurd hy (by decide)
      · exact ht hm
  change (word ('[' :: (name ++ x :: more))).Silent ('[' :: (s ++ y :: tail))
  apply Begins.silent_cons (begins_word _) hbody
  intro rest
  have hread := Text.readWord_name hn hs hx hy more (tail ++ rest)
  rw [if_neg hne] at hread
  rw [read_word_bracket, List.append_assoc, List.cons_append, hread]
  rfl

/-- The word of one closing tag is read nowhere in another closing tag. -/
theorem silent_closer (hn : ∀ c ∈ name, c ∈ Text.capitals)
    (hs : ∀ c ∈ s, c.toUpper ∈ Text.capitals) (hne : name ≠ s.map Char.toUpper) :
    (word ('[' :: '/' :: name ++ [']'])).Silent ('[' :: '/' :: s ++ [']']) := by
  have hbody : '[' ∉ '/' :: s ++ [']'] := by
    intro hm
    rcases List.mem_append.mp hm with hm | hm
    · rcases List.mem_cons.mp hm with h | hm
      · exact absurd h (by decide)
      · exact absurd (hs _ hm) (by decide)
    · exact absurd (List.mem_singleton.mp hm) (by decide)
  change (word ('[' :: ('/' :: name ++ [']']))).Silent ('[' :: ('/' :: s ++ [']']))
  apply Begins.silent_cons (begins_word _) hbody
  intro rest
  have hread := Text.readWord_name hn hs (x := ']') (y := ']') (by decide) (by decide) [] rest
  rw [if_neg (fun h => hne h.1)] at hread
  rw [read_word_bracket]
  have hslash : Text.spells '/' '/' = true := by decide
  simp [Text.readWord, hslash, hread]

theorem read_tag (hn : ∀ c ∈ name, c ∈ Text.capitals) (hs : s.map Char.toUpper = name)
    (hx : x ∈ Text.marks) (rest : Text) :
    (word ('[' :: name ++ [x])).read ('[' :: s ++ x :: rest) = some ('[' :: s ++ [x], rest) := by
  have hs' := Text.toUpper_mem_capitals hn hs
  have hread := Text.readWord_name hn hs' hx hx [] rest
  rw [if_pos ⟨hs.symm, rfl⟩] at hread
  rw [List.cons_append, List.cons_append, read_word_bracket, hread]
  rfl

theorem read_closer (hn : ∀ c ∈ name, c ∈ Text.capitals) (hs : s.map Char.toUpper = name)
    (rest : Text) :
    (word ('[' :: '/' :: name ++ [']'])).read ('[' :: '/' :: s ++ ']' :: rest) =
      some ('[' :: '/' :: s ++ [']'], rest) := by
  have hs' := Text.toUpper_mem_capitals hn hs
  have hread := Text.readWord_name hn hs' (x := ']') (y := ']') (by decide) (by decide) [] rest
  rw [if_pos ⟨hs.symm, rfl⟩] at hread
  have hslash : Text.spells '/' '/' = true := by decide
  rw [List.cons_append, List.cons_append, List.cons_append, List.cons_append, read_word_bracket]
  simp [Text.readWord, hslash, hread]

end

theorem Silent.between {α β : Type} {opener : Pattern α} {t : Text} (h : opener.Silent t)
    (allowed : Char → Bool) (closer : Pattern β) : (between opener allowed closer).Silent t := by
  induction t with
  | nil => trivial
  | cons c t ih => exact ⟨fun rest => by simp [Pattern.between, h.1 rest], ih h.2⟩

theorem Silent.filter {α : Type} {p : Pattern α} {t : Text} (h : p.Silent t)
    (holds : α → Bool) : (p.filter holds).Silent t := by
  induction t with
  | nil => trivial
  | cons c t ih => exact ⟨fun rest => by simp [Pattern.filter, h.1 rest], ih h.2⟩

end Pattern

end TaskBulletin
