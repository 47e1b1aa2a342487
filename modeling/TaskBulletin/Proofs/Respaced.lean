import TaskBulletin.Proofs.Kept
import TaskBulletin.Proofs.Nesting
import TaskBulletin.Text.Spacing
import Mathlib.Data.List.Induction

/-!
# Spacing and tags

Putting the spacing in order replaces blanks by blanks and drops blanks next to others; at
the ends it drops them all. So a stretch without blanks stays, and every tag stays a tag
with the same role: its name, its slashes and its brackets are no blanks, and the blanks
before its name do not matter.
-/

namespace TaskBulletin

namespace Text

/-- The same text but for its blanks: another blank for a blank, or none if a blank comes
before, as `after` says of the place in front. -/
inductive Respaced : (after : Bool) → Text → Text → Prop
  | nil {after : Bool} : Respaced after [] []
  | same {after : Bool} {c : Char} {t u : Text} :
    Respaced (isBlank c) t u → Respaced after (c :: t) (c :: u)
  | other {after : Bool} {c d : Char} {t u : Text} : isBlank c = true → isBlank d = true →
    Respaced true t u → Respaced after (c :: t) (d :: u)
  | fewer {c : Char} {t u : Text} : isBlank c = true → Respaced true t u →
    Respaced true (c :: t) u

theorem respaced_unifyLineEnds (after : Bool) (t : Text) : Respaced after t (unifyLineEnds t) := by
  fun_induction unifyLineEnds t generalizing after with
  | case1 => exact .nil
  | case2 t ih => exact .other (by decide) (by decide) (.fewer (by decide) (ih true))
  | case3 c t _ ih =>
    split
    · rename_i hc
      subst hc
      exact .other (by decide) (by decide) (ih true)
    · exact .same (ih _)

theorem respaced_limitLineFeeds {after : Bool} {seen : Nat} (h : 0 < seen → after = true)
    (t : Text) : Respaced after t (limitLineFeeds seen t) := by
  induction t generalizing after seen with
  | nil => exact .nil
  | cons c t ih =>
    unfold limitLineFeeds
    by_cases hc : c = '\n'
    · subst hc
      rw [if_pos rfl]
      split
      · exact .same (ih fun _ => rfl)
      · rename_i hseen
        obtain rfl := h (by omega)
        exact .fewer (by decide) (ih fun _ => rfl)
    · rw [if_neg hc]
      exact .same (ih fun h => absurd h (by decide))

namespace Respaced

variable {after : Bool} {t u : Text}

theorem eq_nil_iff (h : Respaced false t u) : t = [] ↔ u = [] := by
  cases h <;> simp

theorem tail {d : Char} (hd : isBlank d = false) (h : Respaced after (d :: t) u) :
    ∃ u', u = d :: u' ∧ Respaced false t u' := by
  cases h with
  | @same _ _ _ u' h =>
    rw [hd] at h
    exact ⟨u', rfl, h⟩
  | other hb =>
    rw [hd] at hb
    cases hb
  | fewer hb =>
    rw [hd] at hb
    cases hb

theorem head?_eq_iff {d : Char} (hd : isBlank d = false) (h : Respaced false t u) :
    t.head? = some d ↔ u.head? = some d := by
  cases h with
  | nil => exact Iff.rfl
  | same h => exact Iff.rfl
  | other hc hc' =>
    have hne {c : Char} (hc : isBlank c = true) : c ≠ d := by
      rintro rfl
      rw [hd] at hc
      cases hc
    simp [hne hc, hne hc']

theorem getLast?_eq_iff {d : Char} (hd : isBlank d = false) (h : Respaced after t u) :
    t.getLast? = some d ↔ u.getLast? = some d := by
  have hne {c : Char} (hc : isBlank c = true) : c ≠ d := by
    rintro rfl
    rw [hd] at hc
    cases hc
  have hlast {c : Char} (hc : isBlank c = true) (t : Text) :
      (c :: t).getLast? = some d ↔ t.getLast? = some d := by
    cases t with
    | nil => simp [hne hc]
    | cons e t => rw [List.getLast?_cons_cons]
  induction h with
  | nil => exact Iff.rfl
  | @same _ c t u h ih =>
    cases hc : isBlank c with
    | true => exact (hlast hc t).trans (ih.trans (hlast hc u).symm)
    | false =>
      rw [hc] at h
      cases t with
      | nil =>
        obtain rfl := h.eq_nil_iff.mp rfl
        exact Iff.rfl
      | cons e t =>
        cases u with
        | nil => exact absurd (h.eq_nil_iff.mpr rfl) (by simp)
        | cons f u => rwa [List.getLast?_cons_cons, List.getLast?_cons_cons]
  | @other _ c c' t u hc hc' h ih => exact (hlast hc t).trans (ih.trans (hlast hc' u).symm)
  | @fewer c t u hc h ih => exact (hlast hc t).trans ih

theorem trimStart (h : Respaced after t u) : Respaced false (trimStart t) (trimStart u) := by
  have hdrop {c : Char} (hc : isBlank c = true) (t : Text) : Text.trimStart (c :: t) =
      Text.trimStart t :=
    List.dropWhile_cons_of_pos hc
  induction h with
  | nil => exact .nil
  | @same _ c t u h ih =>
    cases hc : isBlank c with
    | true => rwa [hdrop hc, hdrop hc]
    | false =>
      have hkeep (t : Text) : Text.trimStart (c :: t) = c :: t :=
        List.dropWhile_cons_of_neg (by simp [hc])
      rw [hkeep, hkeep]
      exact .same h
  | other hc hc' h ih => rwa [hdrop hc, hdrop hc']
  | fewer hc h ih => rwa [hdrop hc]

theorem takeWhile_eq {p : Char → Bool} (hp : ∀ c, p c = true → isBlank c = false)
    (h : Respaced false t u) : t.takeWhile p = u.takeWhile p := by
  have hstop {c : Char} (hc : isBlank c = true) : p c = false := by
    cases hpc : p c with
    | true =>
      rw [hp c hpc] at hc
      cases hc
    | false => rfl
  induction t generalizing u with
  | nil =>
    obtain rfl := h.eq_nil_iff.mp rfl
    rfl
  | cons c t ih =>
    cases hc : isBlank c with
    | false =>
      obtain ⟨u', rfl, htail⟩ := h.tail hc
      rw [List.takeWhile_cons, List.takeWhile_cons, ih htail]
    | true =>
      cases h with
      | same h => rw [List.takeWhile_cons, List.takeWhile_cons, hstop hc]; rfl
      | other _ hd h => rw [List.takeWhile_cons, List.takeWhile_cons, hstop hc, hstop hd]; rfl

/-- Both texts are cut at their first `d`, or neither has one. -/
theorem cut {d : Char} (hd : isBlank d = false) (h : Respaced after t u) :
    (d ∉ t ∧ d ∉ u) ∨ ∃ w w' rest rest', t = w ++ d :: rest ∧ u = w' ++ d :: rest' ∧
      d ∉ w ∧ d ∉ w' ∧ Respaced after w w' ∧ Respaced false rest rest' := by
  have hne {c : Char} (hc : isBlank c = true) : d ≠ c := by
    rintro rfl
    rw [hd] at hc
    cases hc
  induction h with
  | nil => exact .inl ⟨List.not_mem_nil, List.not_mem_nil⟩
  | @same after c t u h ih =>
    by_cases hc : d = c
    · subst hc
      rw [hd] at h
      exact .inr ⟨[], [], t, u, rfl, rfl, List.not_mem_nil, List.not_mem_nil, .nil, h⟩
    · rcases ih with ⟨ht, hu⟩ | ⟨w, w', rest, rest', rfl, rfl, hw, hw', hww, hrest⟩
      · exact .inl ⟨by simp [hc, ht], by simp [hc, hu]⟩
      · exact .inr ⟨c :: w, c :: w', rest, rest', rfl, rfl, by simp [hc, hw], by simp [hc, hw'],
          .same hww, hrest⟩
  | @other after c c' t u hc hc' h ih =>
    rcases ih with ⟨ht, hu⟩ | ⟨w, w', rest, rest', rfl, rfl, hw, hw', hww, hrest⟩
    · exact .inl ⟨by simp [hne hc, ht], by simp [hne hc', hu]⟩
    · exact .inr ⟨c :: w, c' :: w', rest, rest', rfl, rfl, by simp [hne hc, hw], by
        simp [hne hc', hw'], .other hc hc' hww, hrest⟩
  | @fewer c t u hc h ih =>
    rcases ih with ⟨ht, hu⟩ | ⟨w, w', rest, rest', rfl, rfl, hw, hw', hww, hrest⟩
    · exact .inl ⟨by simp [hne hc, ht], hu⟩
    · exact .inr ⟨c :: w, w', rest, rest', rfl, rfl, by simp [hne hc, hw], hw',
        .fewer hc hww, hrest⟩

section

variable {w : Text} (hw : ∀ c ∈ w, isBlank c = false)
include hw

theorem isPrefix (h : Respaced after t u) (hp : w <+: t) : w <+: u := by
  induction w generalizing after t u with
  | nil => exact List.nil_prefix
  | cons c w ih =>
    obtain ⟨rest, rfl⟩ := hp
    obtain ⟨u', rfl, htail⟩ := h.tail (hw c (List.mem_cons_self ..))
    rw [List.cons_prefix_cons]
    exact ⟨rfl, ih (fun d hd => hw d (List.mem_cons_of_mem _ hd)) htail (List.prefix_append ..)⟩

theorem isInfix (h : Respaced after t u) (hi : w <:+: t) : w <:+: u := by
  have hblank {c : Char} {t u : Text} (hc : isBlank c = true) (hp : w <+: c :: t) : w <:+: u := by
    cases w with
    | nil => exact List.nil_infix
    | cons d w =>
      obtain ⟨rfl, -⟩ := List.cons_prefix_cons.mp hp
      rw [hw d (List.mem_cons_self ..)] at hc
      cases hc
  induction h with
  | nil => exact hi
  | @same _ c t u h ih =>
    rcases List.infix_cons_iff.mp hi with hp | hi
    · have hwhole : Respaced true (c :: t) (c :: u) := .same h
      exact (hwhole.isPrefix hw hp).isInfix
    · exact List.infix_cons (ih hi)
  | other hc hc' h ih =>
    rcases List.infix_cons_iff.mp hi with hp | hi
    · exact hblank hc hp
    · exact List.infix_cons (ih hi)
  | fewer hc h ih =>
    rcases List.infix_cons_iff.mp hi with hp | hi
    · exact hblank hc hp
    · exact ih hi

end

end Respaced

section

variable {w t : Text} (hw : ∀ c ∈ w, isBlank c = false)
include hw

theorem infix_dropWhile_isBlank (hi : w <:+: t) : w <:+: t.dropWhile isBlank := by
  induction t with
  | nil => exact hi
  | cons c t ih =>
    rw [List.dropWhile_cons]
    split
    · rename_i hc
      rcases List.infix_cons_iff.mp hi with hp | hi
      · cases w with
        | nil => exact List.nil_infix
        | cons d w =>
          obtain ⟨rfl, -⟩ := List.cons_prefix_cons.mp hp
          rw [hw d (List.mem_cons_self ..)] at hc
          cases hc
      · exact ih hi
    · exact hi

theorem infix_trim (hi : w <:+: t) : w <:+: trim t := by
  have hreverse : ∀ c ∈ w.reverse, isBlank c = false := fun c hc => hw c (List.mem_reverse.mp hc)
  have hstart := infix_dropWhile_isBlank hw hi
  have hend := infix_dropWhile_isBlank hreverse (List.reverse_infix.mpr hstart)
  rw [← List.reverse_reverse w]
  exact List.reverse_infix.mpr hend

theorem infix_normalizeSpacing (hi : w <:+: t) : w <:+: normalizeSpacing t := by
  have hunify := (respaced_unifyLineEnds false t).isInfix hw hi
  have hlimit := (respaced_limitLineFeeds (fun h => absurd h (by decide)) (unifyLineEnds t) :
    Respaced false _ (limitLineFeeds 0 (unifyLineEnds t))).isInfix hw hunify
  exact infix_trim hw hlimit

end

end Text

namespace Html

open Pattern Text

/-! ## Roles of tags -/

theorem tagRoles_nil : tagRoles [] = [] := by
  rw [tagRoles, pieces_nil, rolesOf_nil]

theorem tagRoles_cons_of_ne {c : Char} (hc : c ≠ '<') (t : Text) :
    tagRoles (c :: t) = tagRoles t := by
  rw [tagRoles, pieces_of_not_read _ (begins_tag c t hc), rolesOf_plain, tagRoles]

theorem tagRoles_append_of_notMem {t : Text} (h : '<' ∉ t) (u : Text) :
    tagRoles (t ++ u) = tagRoles u := by
  rw [tagRoles, pieces_append_of_silent (begins_tag.silent h), rolesOf_append, rolesOf_map_plain,
    List.nil_append, tagRoles]

theorem tagRoles_tag {w : Text} (hne : w ≠ []) (h : '>' ∉ w) (rest : Text) :
    tagRoles ('<' :: (w ++ '>' :: rest)) = tagRole w :: tagRoles rest := by
  have hread : tag.read ('<' :: (w ++ '>' :: rest)) = some (⟨['<'], w, ['>']⟩, rest) := by
    refine read_tag_eq_some_iff.mpr ⟨rfl, rfl, hne, fun d hd => ?_, rfl⟩
    rw [bne_iff_ne]
    rintro rfl
    exact h hd
  rw [tagRoles, pieces_of_read _ hread, rolesOf_hit, tagRoles]

theorem tagRoles_of_notMem {t : Text} (h : '>' ∉ t) : tagRoles t = [] := by
  induction t with
  | nil => exact tagRoles_nil
  | cons c t ih =>
    have hnone : tag.read (c :: t) = none := by
      rw [Option.eq_none_iff_forall_ne_some]
      rintro ⟨s, rest⟩ hread
      obtain ⟨-, -, -, -, ht⟩ := read_tag_eq_some_iff.mp hread
      rw [ht] at h
      simp at h
    rw [List.mem_cons, not_or] at h
    rw [tagRoles, pieces_of_not_read _ hnone, rolesOf_plain, ← tagRoles, ih h.2]

theorem tagRoles_empty (rest : Text) : tagRoles ('<' :: '>' :: rest) = tagRoles rest := by
  have hnone : tag.read ('<' :: '>' :: rest) = none := by
    rw [Option.eq_none_iff_forall_ne_some]
    rintro ⟨s, rest'⟩ hread
    obtain ⟨-, -, hne, hall, ht⟩ := read_tag_eq_some_iff.mp hread
    cases hs : s.content with
    | nil => exact hne hs
    | cons d w =>
      rw [hs] at ht hall
      obtain ⟨rfl, -⟩ := List.cons.inj (List.cons.inj ht).2
      exact absurd (hall '>' (List.mem_cons_self ..)) (by decide)
  rw [tagRoles, pieces_of_not_read _ hnone, rolesOf_plain, ← tagRoles,
    tagRoles_cons_of_ne (by decide)]

theorem nameOf_respaced {after : Bool} {body body' : Text} (h : Respaced after body body') :
    nameOf body = nameOf body' := by
  rw [nameOf, nameOf, h.trimStart.takeWhile_eq fun c hc => not_isBlank_of_isAlphanum hc]

theorem tagRole_respaced {w w' : Text} (h : Respaced false w w') : tagRole w = tagRole w' := by
  have hslash : isBlank '/' = false := by decide
  by_cases hs : w.head? = some '/'
  · obtain ⟨body, rfl⟩ := List.head?_eq_some_iff.mp hs
    obtain ⟨body', rfl, htail⟩ := h.tail hslash
    rw [tagRole_slash, tagRole_slash, nameOf_respaced htail]
  · have hs' : w'.head? ≠ some '/' := fun he => hs ((h.head?_eq_iff hslash).mpr he)
    have hlast : (w.getLast? == some '/') = (w'.getLast? == some '/') := by
      rw [Bool.eq_iff_iff, beq_iff_eq, beq_iff_eq]
      exact h.getLast?_eq_iff hslash
    rw [tagRole_of_head hs, tagRole_of_head hs', nameOf_respaced h, hlast]

theorem tagRoles_respaced {after : Bool} {t u : Text} (h : Respaced after t u) :
    tagRoles t = tagRoles u := by
  have hangle {c : Char} (hc : isBlank c = true) : c ≠ '<' := by
    rintro rfl
    exact absurd hc (by decide)
  -- A tag is read up to its closing bracket, so the induction is on the length.
  induction hn : t.length using Nat.strong_induction_on generalizing after t u with
  | _ n ih =>
    subst hn
    cases h with
    | nil => rfl
    | @same _ c t u h =>
      by_cases hc : c = '<'
      · subst hc
        rcases h.cut (d := '>') (by decide) with
          ⟨ht, hu⟩ | ⟨w, w', rest, rest', rfl, rfl, hw, hw', hww, hrest⟩
        · rw [tagRoles_of_notMem (by simp [ht]), tagRoles_of_notMem (by simp [hu])]
        · have hlt : rest.length < ('<' :: (w ++ '>' :: rest)).length := by
            simp only [List.length_cons, List.length_append]
            omega
          have hih := ih _ hlt hrest rfl
          cases w with
          | nil =>
            obtain rfl := hww.eq_nil_iff.mp rfl
            rw [List.nil_append, List.nil_append, tagRoles_empty, tagRoles_empty, hih]
          | cons d w =>
            have hne : w' ≠ [] := fun he => absurd (hww.eq_nil_iff.mpr he) (by simp)
            rw [tagRoles_tag (by simp) hw, tagRoles_tag hne hw', tagRole_respaced hww, hih]
      · rw [tagRoles_cons_of_ne hc, tagRoles_cons_of_ne hc, ih _ (Nat.lt_succ_self _) h rfl]
    | other hc hc' h =>
      rw [tagRoles_cons_of_ne (hangle hc), tagRoles_cons_of_ne (hangle hc'),
        ih _ (Nat.lt_succ_self _) h rfl]
    | fewer hc h => rw [tagRoles_cons_of_ne (hangle hc), ih _ (Nat.lt_succ_self _) h rfl]

/-! ## Blanks at the ends -/

theorem tagRoles_dropWhile_isBlank (t : Text) : tagRoles (t.dropWhile isBlank) = tagRoles t := by
  induction t with
  | nil => rfl
  | cons c t ih =>
    rw [List.dropWhile_cons]
    split
    · rename_i hc
      have hne : c ≠ '<' := by
        rintro rfl
        exact absurd hc (by decide)
      rw [ih, tagRoles_cons_of_ne hne]
    · rfl

theorem tagRoles_append_singleton {c : Char} (hc : isBlank c = true) (t : Text) :
    tagRoles (t ++ [c]) = tagRoles t := by
  have hopen : c ≠ '<' := by
    rintro rfl
    exact absurd hc (by decide)
  have hwhole : tag.pieces t = tag.pieces t ++ [] := (List.append_nil _).symm
  rcases pieces_append_or_straddle selfDelimiting_tag hwhole [c] with h | ⟨s, h⟩
  · rw [tag.writeWith_spelling_pieces] at h
    rw [tagRoles, h, rolesOf_append, ← tagRoles, ← tagRoles, tagRoles_cons_of_ne hopen,
      tagRoles_nil, List.append_nil]
  · obtain ⟨-, w, -, hend⟩ := exists_tag_ending h
    cases w with
    | nil =>
      obtain ⟨rfl, -⟩ := List.cons.inj hend
      exact absurd hc (by decide)
    | cons d w => simp at hend

theorem tagRoles_trimEnd (t : Text) : tagRoles (trimEnd t) = tagRoles t := by
  induction t using List.reverseRecOn with
  | nil => rfl
  | append_singleton t c ih =>
    cases hc : isBlank c with
    | true =>
      rw [trimEnd_append_of_isBlank (by simpa using hc), ih, tagRoles_append_singleton hc]
    | false => rw [trimEnd_append_of_not_isBlank (by simp) (by simpa using hc)]

theorem tagRoles_normalizeSpacing (t : Text) : tagRoles (normalizeSpacing t) = tagRoles t := by
  have hunify := tagRoles_respaced (respaced_unifyLineEnds false t)
  have hlimit : Respaced false (unifyLineEnds t) (limitLineFeeds 0 (unifyLineEnds t)) :=
    respaced_limitLineFeeds (fun h => absurd h (by decide)) _
  rw [normalizeSpacing, trim, tagRoles_trimEnd, trimStart, tagRoles_dropWhile_isBlank,
    ← tagRoles_respaced hlimit, ← hunify]

theorem wellNested_normalizeSpacing {t : Text} :
    WellNested (normalizeSpacing t) ↔ WellNested t := by
  have hroles := tagRoles_normalizeSpacing t
  constructor
  · rintro ⟨hm, hc⟩
    rw [hroles] at hm
    rw [openElements, hroles] at hc
    exact ⟨hm, hc⟩
  · rintro ⟨hm, hc⟩
    refine ⟨by rwa [hroles], by rwa [openElements, hroles]⟩

end Html

end TaskBulletin
