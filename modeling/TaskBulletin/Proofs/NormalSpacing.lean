import TaskBulletin.Proofs.Kept
import TaskBulletin.Proofs.Trimming
import Mathlib.Data.List.Basic

/-!
# The normal form of spacing

Putting spacing in order is a chain of replacements and a trim. No carriage return is left when
the line ends are in order, and no three line feeds in a row when their number is limited.
Trimming leaves a stretch of the text, so it brings neither of them back. The texts in normal
form are exactly those that are left as they are.
-/

namespace TaskBulletin.Text

/-- Line feeds only, no three of them in a row, and no blank at either end. -/
structure NormalSpacing (t : Text) : Prop where
  noReturn : '\r' ∉ t
  fewLineFeeds : ¬ List.replicate 3 '\n' <:+: t
  head : ∀ c ∈ t.head?, isBlank c = false
  last : ∀ c ∈ t.getLast?, isBlank c = false

/-! ## Line ends -/

theorem return_notMem_unifyLineEnds (t : Text) : '\r' ∉ unifyLineEnds t := by
  fun_induction unifyLineEnds t with
  | case1 => exact List.not_mem_nil
  | case2 t ih =>
    rw [List.mem_cons, not_or]
    exact ⟨by decide, ih⟩
  | case3 c t _ ih =>
    rw [List.mem_cons, not_or]
    refine ⟨?_, ih⟩
    split
    · decide
    · rename_i hc
      exact Ne.symm hc

theorem unifyLineEnds_eq_self {t : Text} (h : '\r' ∉ t) : unifyLineEnds t = t := by
  have hself := unifyLineEnds_append h []
  rwa [List.append_nil, unifyLineEnds, List.append_nil] at hself

/-- First the pairs of a return and a line feed, then the returns that are left. -/
theorem unifyLineEnds_eq_replace (t : Text) :
    unifyLineEnds t = replace ['\r'] ['\n'] (replace ['\r', '\n'] ['\n'] t) := by
  rw [replace_singleton]
  fun_induction unifyLineEnds t with
  | case1 => rw [replace_nil]; rfl
  | case2 t ih =>
    have hpair : replace ['\r', '\n'] ['\n'] ('\r' :: '\n' :: t) =
        '\n' :: replace ['\r', '\n'] ['\n'] t :=
      replace_append (List.cons_ne_nil '\r' ['\n']) ['\n'] t
    rw [hpair, List.flatMap_cons, ← ih]
    rfl
  | case3 c t hne ih =>
    have hsingle (rest : Text) : c :: t ≠ ['\r', '\n'] ++ rest := by
      intro h
      obtain ⟨hc, ht⟩ := List.cons.inj h
      exact hne rest hc ht
    rw [replace_cons hsingle, List.flatMap_cons, ← ih]
    split <;> rfl

/-- However its line feeds are written, the line ends of a text are the same. -/
theorem unifyLineEnds_replace {t lineEnd : Text} (ht : '\r' ∉ t)
    (hend : lineEnd ∈ ["\r\n".toList, "\r".toList]) :
    unifyLineEnds (replace ['\n'] lineEnd t) = t := by
  obtain ⟨w, rfl, hw⟩ : ∃ w, lineEnd = '\r' :: w ∧ (w = ['\n'] ∨ w = []) := by
    rcases List.mem_pair.mp hend with rfl | rfl
    · exact ⟨['\n'], rfl, .inl rfl⟩
    · exact ⟨[], rfl, .inr rfl⟩
  rw [replace_singleton]
  induction t with
  | nil => rfl
  | cons c t ih =>
    obtain ⟨hc, ht⟩ := not_or.mp fun h => ht (List.mem_cons.mpr h)
    rw [List.flatMap_cons]
    by_cases hn : c = '\n'
    · -- What follows the return does not begin with a line feed, unless it belongs to the return.
      have hhead : (t.flatMap fun d => if d = '\n' then '\r' :: w else [d]).head? ≠ some '\n' := by
        cases t with
        | nil => simp
        | cons d t => by_cases hd : d = '\n' <;> simp [hd]
      rw [if_pos hn, hn, List.cons_append, unifyLineEnds_return]
      rcases hw with rfl | rfl
      · exact congrArg ('\n' :: ·) (ih ht)
      · rw [List.nil_append, if_neg hhead, ih ht]
    · rw [if_neg hn, List.singleton_append, unifyLineEnds_cons (Ne.symm hc), ih ht]

/-! ## Line feeds in a row -/

theorem isInfix_of_append_cons {w u t : Text} {c : Char} (hc : c ∉ w) (h : w <:+: u ++ c :: t) :
    w <:+: u ∨ w <:+: t := by
  have hnil {v : Text} (hv : c ∉ v) (h : v <+: c :: t) : v = [] := by
    rcases List.prefix_cons_iff.mp h with rfl | ⟨_, rfl, -⟩
    · rfl
    · exact absurd (List.mem_cons_self ..) hv
  rcases List.infix_append_iff.mp h with h | h | ⟨v, v', rfl, hv, hv'⟩
  · exact .inl h
  · rcases List.infix_cons_iff.mp h with h | h
    · rw [hnil hc h]
      exact .inl List.nil_infix
    · exact .inr h
  · rw [hnil (fun hm => hc (List.mem_append_right _ hm)) hv', List.append_nil]
    exact .inl hv.isInfix

theorem replicate_append_cons (n : Nat) (c : Char) (t : Text) :
    List.replicate n c ++ c :: t = List.replicate (n + 1) c ++ t := by
  rw [List.replicate_succ', List.append_assoc, List.singleton_append]

/-- No more than two line feeds in a row are left, also together with those just before the text. -/
theorem limitLineFeeds_few {seen : Nat} (hseen : seen ≤ 2) (t : Text) :
    ¬ List.replicate 3 '\n' <:+: List.replicate seen '\n' ++ limitLineFeeds seen t := by
  have hshort {k : Nat} (hk : k ≤ 2) : ¬ List.replicate 3 '\n' <:+: List.replicate k '\n' := by
    intro h
    have hlength := h.length_le
    rw [List.length_replicate, List.length_replicate] at hlength
    omega
  induction t generalizing seen with
  | nil =>
    rw [limitLineFeeds, List.append_nil]
    exact hshort hseen
  | cons c t ih =>
    rw [limitLineFeeds]
    by_cases hc : c = '\n'
    · subst hc
      rw [if_pos rfl]
      split
      · rename_i hless
        rw [replicate_append_cons]
        exact ih hless
      · exact ih hseen
    · rw [if_neg hc]
      intro h
      rcases isInfix_of_append_cons (by simp [hc]) h with h | h
      · exact hshort hseen h
      · exact ih (Nat.zero_le 2) h

theorem limitLineFeeds_eq_self (seen : Nat) {t : Text}
    (h : ¬ List.replicate 3 '\n' <:+: List.replicate seen '\n' ++ t) :
    limitLineFeeds seen t = t := by
  induction t generalizing seen with
  | nil => rfl
  | cons c t ih =>
    rw [limitLineFeeds]
    by_cases hc : c = '\n'
    · subst hc
      rw [replicate_append_cons] at h
      have hless : seen < 2 := by
        by_contra hnot
        obtain ⟨k, hk⟩ : ∃ k, seen + 1 = 3 + k := ⟨seen - 2, by omega⟩
        rw [hk, List.replicate_add, List.append_assoc] at h
        exact h (List.prefix_append ..).isInfix
      rw [if_pos rfl, if_pos hless, ih _ h]
    · rw [if_neg hc, ih 0 fun ht => h (ht.trans ?_)]
      exact (List.suffix_cons c t).isInfix.trans (List.suffix_append ..).isInfix

theorem limitLineFeeds_sublist (seen : Nat) (t : Text) : (limitLineFeeds seen t).Sublist t := by
  induction t generalizing seen with
  | nil => exact .slnil
  | cons c t ih =>
    rw [limitLineFeeds]
    split
    · split
      · exact (ih _).cons_cons c
      · exact (ih _).cons c
    · exact (ih _).cons_cons c

/-! ## Excess line feeds -/

def excessLineFeeds : Pattern Text := (Pattern.run (· == '\n')).filter fun feeds => 3 ≤ feeds.length

section

variable {t : Text} (h : t.head? ≠ some '\n')
include h

theorem read_excessLineFeeds (k : Nat) : excessLineFeeds.read (List.replicate k '\n' ++ t) =
    if 3 ≤ k then some (List.replicate k '\n', t) else none := by
  have hall : ∀ c ∈ List.replicate k '\n', (c == '\n') = true := by simp
  have hnone : t.takeWhile (· == '\n') = [] ∧ t.dropWhile (· == '\n') = t := by
    cases t with
    | nil => exact ⟨rfl, rfl⟩
    | cons c t => simp_all
  have htake : (List.replicate k '\n' ++ t).takeWhile (· == '\n') = List.replicate k '\n' := by
    rw [List.takeWhile_append_of_pos hall, hnone.1, List.append_nil]
  have hdrop : (List.replicate k '\n' ++ t).dropWhile (· == '\n') = t := by
    rw [List.dropWhile_append_of_pos hall, hnone.2]
  simp only [excessLineFeeds, Pattern.filter, Pattern.run, htake, hdrop]
  cases k with
  | zero => rfl
  | succ k => simp [List.replicate_succ]

theorem rewrite_excessLineFeeds (k : Nat) :
    excessLineFeeds.rewrite (fun _ => ['\n', '\n']) (List.replicate k '\n' ++ t) =
      List.replicate (min k 2) '\n' ++ excessLineFeeds.rewrite (fun _ => ['\n', '\n']) t := by
  by_cases hk : 3 ≤ k
  · have hread := read_excessLineFeeds h k
    rw [if_pos hk] at hread
    rw [Pattern.rewrite_of_read hread, Nat.min_eq_right (by omega)]
    rfl
  · rw [Nat.min_eq_left (by omega)]
    induction k with
    | zero => rfl
    | succ k ih =>
      have hread := read_excessLineFeeds h (k + 1)
      rw [if_neg hk, List.replicate_succ, List.cons_append] at hread
      rw [List.replicate_succ, List.cons_append, List.cons_append, ← ih (by omega),
        Pattern.rewrite_of_not_read hread]

theorem limitLineFeeds_replicate (seen k : Nat) :
    limitLineFeeds seen (List.replicate k '\n' ++ t) =
      List.replicate (min k (2 - seen)) '\n' ++ limitLineFeeds 0 t := by
  induction k generalizing seen with
  | zero =>
    rw [Nat.zero_min, List.replicate_zero, List.nil_append, List.nil_append]
    cases t with
    | nil => rfl
    | cons c t =>
      have hc : c ≠ '\n' := by simpa using h
      rw [limitLineFeeds, limitLineFeeds, if_neg hc, if_neg hc]
  | succ k ih =>
    rw [List.replicate_succ, List.cons_append, limitLineFeeds, if_pos rfl]
    split
    · have hmin : min (k + 1) (2 - seen) = min k (2 - (seen + 1)) + 1 := by omega
      rw [ih, hmin, List.replicate_succ, List.cons_append]
    · have hmin : min (k + 1) (2 - seen) = min k (2 - seen) := by omega
      rw [ih, hmin]

end

theorem exists_replicate_append (c : Char) (t : Text) :
    ∃ k u, t = List.replicate k c ++ u ∧ u.head? ≠ some c := by
  induction t with
  | nil => exact ⟨0, [], rfl, by simp⟩
  | cons d t ih =>
    by_cases hd : d = c
    · obtain ⟨k, u, rfl, hu⟩ := ih
      exact ⟨k + 1, u, by rw [hd, List.replicate_succ, List.cons_append], hu⟩
    · exact ⟨0, d :: t, rfl, by simpa using hd⟩

/-- Three line feeds in a row, or more, become two. -/
theorem limitLineFeeds_eq_rewrite (t : Text) :
    limitLineFeeds 0 t = excessLineFeeds.rewrite (fun _ => ['\n', '\n']) t := by
  induction hn : t.length using Nat.strong_induction_on generalizing t with
  | _ n ih =>
    obtain ⟨k, u, rfl, hu⟩ := exists_replicate_append '\n' t
    rw [limitLineFeeds_replicate hu, rewrite_excessLineFeeds hu]
    refine congrArg (List.replicate (min k 2) '\n' ++ ·) ?_
    cases u with
    | nil => rw [Pattern.rewrite_nil]; rfl
    | cons c u =>
      have hc : c ≠ '\n' := by simpa using hu
      have hread : excessLineFeeds.read (c :: u) = none := read_excessLineFeeds hu 0
      have hless : u.length < n := by
        rw [← hn, List.length_append, List.length_cons]
        omega
      rw [limitLineFeeds, if_neg hc, ih _ hless u rfl, Pattern.rewrite_of_not_read hread]

/-! ## Normal forms -/

theorem normalSpacing_normalizeSpacing (t : Text) : NormalSpacing (normalizeSpacing t) where
  noReturn h :=
    return_notMem_unifyLineEnds t ((limitLineFeeds_sublist 0 _).mem (mem_of_mem_trim h))
  fewLineFeeds h := limitLineFeeds_few (Nat.zero_le 2) _ (h.trans (isInfix_trim _))
  head _ := not_isBlank_of_mem_head?_trim
  last _ := not_isBlank_of_mem_getLast?_trim

theorem normalizeSpacing_eq_self {t : Text} (h : NormalSpacing t) : normalizeSpacing t = t := by
  rw [normalizeSpacing, unifyLineEnds_eq_self h.noReturn, limitLineFeeds_eq_self 0 h.fewLineFeeds,
    trim_eq_self h.head h.last]

theorem filter_normalizeSpacing (t : Text) :
    (normalizeSpacing t).filter (!isBlank ·) = t.filter (!isBlank ·) := by
  let chars := (t ++ normalizeSpacing t).filter (!isBlank ·)
  have hblank : ∀ d ∈ chars, isBlank d = false := by
    intro d hd
    simpa using (List.mem_filter.mp hd).2
  have honly {u : Text} (hu : u ⊆ t ++ normalizeSpacing t) : only chars u =
      u.filter (!isBlank ·) := by
    refine List.filter_congr fun c hc => ?_
    rw [Bool.eq_iff_iff, List.contains_iff_mem, List.mem_filter]
    exact and_iff_right (hu hc)
  rw [← honly (List.subset_append_right ..), only_normalizeSpacing hblank,
    honly (List.subset_append_left ..)]

/-- Spacing is put in order by three replacements and a trim. The result is in normal form and keeps
all characters that are no blanks, exactly the texts in normal form stay as they are, and it is the
same for a text whose line feeds are written as returns, with line feeds or without. -/
theorem spacing_normal_form (t : Text) :
    normalizeSpacing t = trim (excessLineFeeds.rewrite (fun _ => ['\n', '\n'])
        (replace ['\r'] ['\n'] (replace ['\r', '\n'] ['\n'] t))) ∧
      NormalSpacing (normalizeSpacing t) ∧
      (normalizeSpacing t = t ↔ NormalSpacing t) ∧
      normalizeSpacing (normalizeSpacing t) = normalizeSpacing t ∧
      ('\r' ∉ t → ∀ lineEnd ∈ ["\r\n".toList, "\r".toList],
        normalizeSpacing (replace ['\n'] lineEnd t) = normalizeSpacing t) ∧
      (normalizeSpacing t).filter (!isBlank ·) = t.filter (!isBlank ·) := by
  have hnormal := normalSpacing_normalizeSpacing t
  refine ⟨?_, hnormal, ⟨fun hself => ?_, normalizeSpacing_eq_self⟩,
    normalizeSpacing_eq_self hnormal,
    fun ht lineEnd hend => ?_, filter_normalizeSpacing t⟩
  · rw [normalizeSpacing, limitLineFeeds_eq_rewrite, unifyLineEnds_eq_replace]
  · rwa [hself] at hnormal
  · rw [normalizeSpacing, unifyLineEnds_replace ht hend, normalizeSpacing, unifyLineEnds_eq_self ht]

def looselySpaced : Text := "\u2003a\n\n\n\n\u2003b \n".toList

theorem spacing_normal_form_loose :
    '\r' ∉ looselySpaced ∧
      normalizeSpacing looselySpaced = "a\n\n\u2003b".toList ∧
      NormalSpacing "a\n\n\u2003b".toList ∧
      normalizeSpacing (replace ['\n'] "\r\n".toList looselySpaced) = "a\n\n\u2003b".toList ∧
      normalizeSpacing (replace ['\n'] "\r".toList looselySpaced) = "a\n\n\u2003b".toList := by
  have hreturn : '\r' ∉ looselySpaced := by decide
  have hspaced : normalizeSpacing looselySpaced = "a\n\n\u2003b".toList := by decide
  obtain ⟨-, hnormal, -, -, hends, -⟩ := spacing_normal_form looselySpaced
  rw [hspaced] at hnormal hends
  exact ⟨hreturn, hspaced, hnormal, hends hreturn _ (by decide), hends hreturn _ (by decide)⟩

end TaskBulletin.Text
