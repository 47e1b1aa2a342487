import TaskBulletin.Proofs.Reading
import TaskBulletin.Proofs.Trimming
import Mathlib.Data.List.Induction

/-!
# How matches are spelled

A word is read with a spelling for each of its characters, so a match lacks every
character that spells none of them. The tags of the markup begin and end with square
brackets, and their words hold no character of HTML.
-/

namespace TaskBulletin.Pattern

variable {α β : Type}

/-! ## Spelled words -/

theorem Reads.exact {w a : Text} (h : (exact w).Reads a) : a = w := by
  obtain ⟨t, rest, h⟩ := h
  cases w with
  | nil => simp [Pattern.exact] at h
  | cons c w => exact ((read_exact_eq_some_iff (by simp)).mp h).1

theorem forall₂_of_readWord {w t spelled rest : Text}
    (h : Text.readWord w t = some (spelled, rest)) :
    List.Forall₂ (fun x c => Text.spells x c = true) w spelled := by
  induction w generalizing t spelled rest with
  | nil =>
    obtain ⟨rfl, -⟩ := Prod.mk.inj (Option.some.inj h)
    exact .nil
  | cons x w ih =>
    cases t with
    | nil => cases h
    | cons c t =>
      simp only [Text.readWord, Option.ite_none_right_eq_some] at h
      obtain ⟨hs, h⟩ := h
      obtain ⟨⟨s, r⟩, hr, he⟩ := Option.map_eq_some_iff.1 h
      obtain ⟨rfl, -⟩ := Prod.mk.inj he
      exact .cons hs (ih hr)

theorem Reads.word {w a : Text} (h : (word w).Reads a) :
    List.Forall₂ (fun x c => Text.spells x c = true) w a := by
  obtain ⟨t, rest, h⟩ := h
  simp only [Pattern.word] at h
  split at h
  · cases h
  · exact forall₂_of_readWord h

theorem exists_spells_of_mem {w a : Text}
    (h : List.Forall₂ (fun x c => Text.spells x c = true) w a) {c : Char} (hc : c ∈ a) :
    ∃ x ∈ w, Text.spells x c = true := by
  induction h with
  | nil => cases hc
  | @cons x d w a hx _ ih =>
    rcases List.mem_cons.mp hc with rfl | hc
    · exact ⟨x, List.mem_cons_self .., hx⟩
    · obtain ⟨y, hy, hs⟩ := ih hc
      exact ⟨y, List.mem_cons_of_mem _ hy, hs⟩

theorem notMem_of_forall₂ {w a : Text} (h : List.Forall₂ (fun x c => Text.spells x c = true) w a)
    {c : Char} (hw : ∀ x ∈ w, Text.spells x c = false) : c ∉ a := by
  intro hc
  obtain ⟨x, hx, hs⟩ := exists_spells_of_mem h hc
  rw [hw x hx] at hs
  cases hs

/-! ## Characters that no match has -/

/-- What the pattern reads does not hold `c`. -/
def Lacks (p : Pattern α) (c : Char) : Prop := ∀ a, p.Reads a → c ∉ p.spelling a

theorem lacks_word {c : Char} {w : Text} (hw : ∀ x ∈ w, Text.spells x c = false) :
    (word w).Lacks c :=
  fun _ h => notMem_of_forall₂ h.word hw

theorem lacks_exact {c : Char} {w : Text} (hw : c ∉ w) : (exact w).Lacks c := by
  intro a h
  rw [h.exact]
  exact hw

section

variable {c : Char} {name : Text} (hc : ∀ x ∈ "[/]=".toList, Text.spells x c = false)
  (hn : ∀ x ∈ name, Text.spells x c = false)
include hc hn

theorem lacks_opening : (word ('[' :: name ++ [']'])).Lacks c := by
  apply lacks_word
  intro x hx
  simp only [List.cons_append, List.mem_cons, List.mem_append, List.not_mem_nil, or_false] at hx
  rcases hx with rfl | hx | rfl
  · exact hc _ (by decide)
  · exact hn x hx
  · exact hc _ (by decide)

theorem lacks_closing : (word ('[' :: '/' :: name ++ [']'])).Lacks c := by
  apply lacks_word
  intro x hx
  simp only [List.cons_append, List.mem_cons, List.mem_append, List.not_mem_nil, or_false] at hx
  rcases hx with rfl | rfl | hx | rfl
  · exact hc _ (by decide)
  · exact hc _ (by decide)
  · exact hn x hx
  · exact hc _ (by decide)

theorem lacks_head : (word ('[' :: (name ++ ['=']))).Lacks c := by
  apply lacks_word
  intro x hx
  simp only [List.mem_cons, List.mem_append, List.not_mem_nil, or_false] at hx
  rcases hx with rfl | hx | rfl
  · exact hc _ (by decide)
  · exact hn x hx
  · exact hc _ (by decide)

end

/-! ## First characters -/

theorem spells_bracket (c : Char) : Text.spells '[' c = (c == '[') := by
  have hl : '['.toLower = '[' := by decide
  simp [Text.spells, Text.foldsOnto, hl]

theorem begins_word (w : Text) : (word ('[' :: w)).Begins '[' := by
  intro c t hc
  simp [word, Text.readWord, spells_bracket, hc]

theorem Begins.exists_spelling {p : Pattern α} {c : Char} (hp : p.Begins c) {a : α}
    (h : p.Reads a) : ∃ m, p.spelling a = c :: m := by
  obtain ⟨t, rest, h⟩ := h
  have ht := p.read_eq h
  cases hs : p.spelling a with
  | nil => exact absurd hs (p.spelling_ne_nil h)
  | cons d m =>
    rw [hs, List.cons_append] at ht
    by_cases hd : d = c
    · exact ⟨m, by rw [hd]⟩
    · rw [ht, hp d _ hd] at h
      cases h

/-! ## Last characters -/

/-- Whatever the pattern reads ends with `c`. -/
def Ends (p : Pattern α) (c : Char) : Prop := ∀ a, p.Reads a → ∃ m, p.spelling a = m ++ [c]

theorem ends_exact (w : Text) (c : Char) : (exact (w ++ [c])).Ends c := by
  intro a h
  exact ⟨w, h.exact⟩

theorem exists_append_of_forall₂ {w a : Text}
    (h : List.Forall₂ (fun x c => Text.spells x c = true) (w ++ [']']) a) :
    ∃ m, a = m ++ [']'] := by
  induction w generalizing a with
  | nil =>
    cases h with
    | @cons _ c _ _ hs hnil =>
      cases hnil
      have hl : ']'.toLower = ']' := by decide
      have hc : c = ']' := by simpa [Text.spells, Text.foldsOnto, hl] using hs
      exact ⟨[], by rw [hc]; rfl⟩
  | cons x w ih =>
    cases h with
    | @cons _ c _ a _ h =>
      obtain ⟨m, rfl⟩ := ih h
      exact ⟨c :: m, rfl⟩

theorem ends_word (w : Text) : (word (w ++ [']'])).Ends ']' :=
  fun _ h => exists_append_of_forall₂ h.word

theorem ends_between (opener : Pattern α) (allowed : Char → Bool) {closer : Pattern β} {c : Char}
    (hc : closer.Ends c) : (between opener allowed closer).Ends c := by
  intro s h
  obtain ⟨-, -, hb⟩ := h.between
  obtain ⟨m, hm⟩ := hc _ hb
  refine ⟨opener.spelling s.opener ++ s.content ++ m, ?_⟩
  rw [spelling_between, hm, List.append_assoc, List.append_assoc, List.append_assoc]

/-! ## Blanks at the ends -/

section

variable {f : α → Text} (ps : List (Piece α))

/-- If no match begins with a blank, trimming drops plain blanks in front. -/
theorem exists_trimStart_writeWith
    (h : ∀ a, .hit a ∈ ps → ∃ c u, f a = c :: u ∧ Text.isBlank c = false) :
    ∃ blanks : Text, ∃ back, ps = blanks.map .plain ++ back ∧
      (∀ c ∈ blanks, Text.isBlank c = true) ∧
      Text.trimStart (writeWith f ps) = writeWith f back := by
  induction ps with
  | nil => exact ⟨[], [], rfl, by simp, rfl⟩
  | cons piece ps ih =>
    cases piece with
    | plain c =>
      cases hc : Text.isBlank c with
      | true =>
        obtain ⟨blanks, back, hps, hb, htrim⟩ := ih fun a ha => h a (List.mem_cons_of_mem _ ha)
        refine ⟨c :: blanks, back, by rw [hps, List.map_cons, List.cons_append], ?_, ?_⟩
        · intro d hd
          rcases List.mem_cons.mp hd with rfl | hd
          · exact hc
          · exact hb d hd
        · rw [writeWith, Text.trimStart, List.dropWhile_cons_of_pos hc]
          exact htrim
      | false =>
        refine ⟨[], .plain c :: ps, rfl, by simp, ?_⟩
        rw [writeWith, Text.trimStart, List.dropWhile_cons_of_neg (by simp [hc])]
    | hit a =>
      obtain ⟨c, u, hf, hc⟩ := h a (List.mem_cons_self ..)
      refine ⟨[], .hit a :: ps, rfl, by simp, ?_⟩
      rw [writeWith, hf, List.cons_append, Text.trimStart,
        List.dropWhile_cons_of_neg (by simp [hc])]

/-- If no match ends with a blank, trimming drops plain blanks at the end. -/
theorem exists_trimEnd_writeWith
    (h : ∀ a, .hit a ∈ ps → ∃ u c, f a = u ++ [c] ∧ Text.isBlank c = false) :
    ∃ front, ∃ blanks : Text, ps = front ++ blanks.map .plain ∧
      (∀ c ∈ blanks, Text.isBlank c = true) ∧
      Text.trimEnd (writeWith f ps) = writeWith f front := by
  induction ps using List.reverseRecOn with
  | nil => exact ⟨[], [], rfl, by simp, rfl⟩
  | append_singleton ps piece ih =>
    have hkeep {c : Char} (hc : Text.isBlank c = false) (u : Text) :
        Text.trimEnd (u ++ [c]) = u ++ [c] :=
      Text.trimEnd_append_of_not_isBlank (by simp) (by simpa using hc)
    cases piece with
    | plain c =>
      have hw : writeWith f (ps ++ [.plain c]) = writeWith f ps ++ [c] := writeWith_append ..
      cases hc : Text.isBlank c with
      | true =>
        obtain ⟨front, blanks, hps, hb, htrim⟩ := ih fun s hs => h s (List.mem_append_left _ hs)
        refine ⟨front, blanks ++ [c], by simp [hps], ?_, ?_⟩
        · intro d hd
          rcases List.mem_append.mp hd with hd | hd
          · exact hb d hd
          · rw [List.mem_singleton.mp hd, hc]
        · rw [hw, Text.trimEnd_append_of_isBlank (by simpa using hc)]
          exact htrim
      | false => exact ⟨ps ++ [.plain c], [], by simp, by simp, by rw [hw, hkeep hc]⟩
    | hit a =>
      obtain ⟨u, c, hf, hc⟩ := h a (by simp)
      have hw : writeWith f (ps ++ [.hit a]) = writeWith f ps ++ u ++ [c] := by
        rw [writeWith_append, writeWith, hf]
        simp [writeWith]
      exact ⟨ps ++ [.hit a], [], by simp, by simp, by rw [hw, hkeep hc]⟩

end

end TaskBulletin.Pattern
