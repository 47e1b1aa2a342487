import TaskBulletin.Proofs.Row
import Mathlib.Data.List.Infix

/-!
# Tokens put for one match after another

The matches of a text are found once, and then replaced one after another, each wherever its
spelling stands in the text as it is by then. Between tokens the text is what it was, so a
spelling can stand in three places: where it is a match, inside a match that still stands, or
across the end of one. Without the last two, all replacements together are one pass over the
matches. Otherwise a token is put inside a match and stays there, and the text is another one
than after that pass.
-/

namespace TaskBulletin

namespace Pattern

variable {α : Type} {p : Pattern α}

theorem Silent.of_suffix {t v : Text} (h : p.Silent t) (hs : v <:+ t) : p.Silent v := by
  obtain ⟨u, rfl⟩ := hs
  induction u with
  | nil => exact h
  | cons c u ih => exact ih h.2

variable (p) [DecidableEq α]

/-- The token of a match, if it is among those that were replaced. -/
def withTokens (name : α → Text) (done : List α) (a : α) : Text :=
  if a ∈ done then tokenOf name a else p.spelling a

/-! ## The rows of a text -/

/-- The row of a match: it counts as one if it is among those that were replaced. -/
def stretch (done : List α) (b : α) : List (Piece α) :=
  if b ∈ done then [.hit b] else (p.spelling b).map .plain

/-- The row of a text in which some matches were replaced. -/
def spellOut (done : List α) : List (Piece α) → List (Piece α)
  | [] => []
  | .plain c :: ps => .plain c :: spellOut done ps
  | .hit b :: ps => p.stretch done b ++ spellOut done ps

/-! ## What is undisturbed -/

/-- If the match `b` still stands in front of a text with tokens, the spelling of `a` does not begin
inside it. -/
def Outside (name : α → Text) (done : List α) (a b : α) (ps : List (Piece α)) : Prop :=
  b ∉ done → b ≠ a → ∀ v ∈ (p.spelling b).tail.tails, v ≠ [] →
    ¬ p.spelling a <+: v ++ writeWith (p.withTokens name done) ps

/-- The spelling of `a` begins inside none of the matches that still stand. -/
def NoneInside (name : α → Text) (done : List α) (a : α) : List (Piece α) → Prop
  | [] => True
  | .plain _ :: ps => NoneInside name done a ps
  | .hit b :: ps => p.Outside name done a b ps ∧ NoneInside name done a ps

/-- No match, when tokens stand for those found before it, begins inside another one that still
stands. -/
def Undisturbed (name : α → Text) (ps : List (Piece α)) : (done later : List α) → Prop
  | _, [] => True
  | done, a :: later => p.NoneInside name done a ps ∧ Undisturbed name ps (done ++ [a]) later

instance (name : α → Text) (done : List α) (a b : α) (ps : List (Piece α)) :
    Decidable (p.Outside name done a b ps) :=
  inferInstanceAs (Decidable (_ → _ → _))

instance decidableNoneInside (name : α → Text) (done : List α) (a : α) :
    (ps : List (Piece α)) → Decidable (p.NoneInside name done a ps)
  | [] => .isTrue trivial
  | .plain _ :: ps => decidableNoneInside name done a ps
  | .hit b :: ps =>
    have := decidableNoneInside name done a ps
    inferInstanceAs (Decidable (p.Outside name done a b ps ∧ p.NoneInside name done a ps))

instance decidableUndisturbed (name : α → Text) (ps : List (Piece α)) :
    (done later : List α) → Decidable (p.Undisturbed name ps done later)
  | _, [] => .isTrue trivial
  | done, a :: later =>
    have := decidableUndisturbed name ps (done ++ [a]) later
    inferInstanceAs
      (Decidable (p.NoneInside name done a ps ∧ p.Undisturbed name ps (done ++ [a]) later))

variable {p} {a : α} {name : α → Text} {k place : Nat}

theorem writeWith_stretch (f : α → Text) (done : List α) (b : α) :
    writeWith f (p.stretch done b) = if b ∈ done then f b else p.spelling b := by
  rw [stretch]
  split
  · simp [writeWith]
  · rw [writeWith_map_plain]

theorem writeWith_spellOut (f : α → Text) (done : List α) (ps : List (Piece α)) :
    writeWith f (p.spellOut done ps) =
      writeWith (fun b => if b ∈ done then f b else p.spelling b) ps := by
  induction ps with
  | nil => rfl
  | cons piece ps ih =>
    cases piece with
    | plain c => rw [spellOut, writeWith, writeWith, ih]
    | hit b => rw [spellOut, writeWith_append, writeWith_stretch, writeWith, ih]

theorem writeWith_spelling_spellOut_pieces (done : List α) (t : Text) :
    writeWith p.spelling (p.spellOut done (p.pieces t)) = t := by
  rw [writeWith_spellOut]
  simp only [ite_self, writeWith_spelling_pieces]

theorem spellOut_nil_pieces (t : Text) : p.spellOut [] (p.pieces t) = t.map .plain := by
  suffices h : ∀ ps, p.spellOut [] ps = (writeWith p.spelling ps).map .plain by
    rw [h, writeWith_spelling_pieces]
  intro ps
  induction ps with
  | nil => rfl
  | cons piece ps ih => cases piece <;> simp [spellOut, stretch, writeWith, ih]

theorem mem_places_of_stretch {done : List α} {b : α}
    (h : (place, a) ∈ p.places k (p.stretch done b)) : (place, a) = (k, b) := by
  rw [stretch] at h
  split at h
  · exact List.mem_singleton.mp h
  · rw [places_map_plain] at h
    cases h

theorem mem_places_of_spellOut {done : List α} {ps : List (Piece α)}
    (h : (place, a) ∈ p.places k (p.spellOut done ps)) : (place, a) ∈ p.places k ps := by
  induction ps generalizing k with
  | nil => exact h
  | cons piece ps ih =>
    cases piece with
    | plain c => exact ih h
    | hit b =>
      rw [spellOut, places_append, writeWith_stretch, ite_self, List.mem_append] at h
      exact List.mem_cons.mpr (h.imp mem_places_of_stretch ih)

/-! ## One replacement -/

theorem prefix_map_plain_append_spellOut_iff (ha : p.Replaceable a) {done : List α} {v : Text}
    {ps : List (Piece α)} : (p.spelling a).map .plain <+: v.map .plain ++ p.spellOut done ps ↔
      p.spelling a <+: v ++ writeWith (p.withTokens name done) ps := by
  rw [← prefix_writeWith_iff name ha.nul_notMem, writeWith_append, writeWith_map_plain,
    writeWith_spellOut]
  rfl

theorem gather_plain_of_not_read (ha : p.Replaceable a) {done : List α} {c : Char} {t : Text}
    (h : p.read (c :: t) = none) : p.gather a (.plain c :: p.spellOut done (p.pieces t)) =
      .plain c :: p.gather a (p.spellOut done (p.pieces t)) := by
  refine gather_plain fun hprefix => ?_
  obtain ⟨rest, hread⟩ := exists_read_of_spelled ha hprefix
  rw [writeWith, writeWith_spelling_spellOut_pieces, h] at hread
  cases hread

theorem not_prefix_of_read (ha : p.Replaceable a) {done : List α} {b : α} {t rest : Text}
    (h : p.read t = some (b, rest)) (hne : b ≠ a) :
    ¬ (p.spelling a).map .plain <+: (p.spelling b).map .plain ++ p.spellOut done
      (p.pieces rest) := by
  intro hprefix
  obtain ⟨rest', hread⟩ := exists_read_of_spelled ha hprefix
  rw [writeWith_append, writeWith_map_plain, writeWith_spelling_spellOut_pieces,
    ← p.read_eq h, h] at hread
  exact hne (Prod.mk.inj (Option.some.inj hread)).1

/-- A match that the spelling does not begin inside is put as a whole or left as it is. -/
theorem gather_stretch_append (ha : p.Replaceable a) {done : List α} {b : α} {t rest : Text}
    (hread : p.read t = some (b, rest)) (h : p.Outside name done a b (p.pieces rest)) :
    p.gather a (p.stretch done b ++ p.spellOut done (p.pieces rest)) =
      p.stretch (done ++ [a]) b ++ p.gather a (p.spellOut done (p.pieces rest)) := by
  rw [stretch, stretch]
  by_cases hb : b ∈ done
  · rw [if_pos hb, if_pos (List.mem_append_left _ hb)]
    exact gather_hit ..
  · by_cases hba : b = a
    · rw [if_neg hb, hba, if_pos (List.mem_append_right _ (List.mem_singleton_self a))]
      exact gather_spelling_append ha _
    · rw [if_neg hb, if_neg (by simp [hb, hba])]
      refine gather_map_plain_append fun v hv hs hprefix => ?_
      obtain ⟨c, w, hw⟩ := List.exists_cons_of_ne_nil (p.spelling_ne_nil hread)
      rw [hw] at hs
      rcases List.suffix_cons_iff.mp hs with rfl | hs
      · rw [← hw] at hprefix
        exact not_prefix_of_read ha hread hba hprefix
      · exact h hb hba v (by rwa [List.mem_tails, hw]) hv
          ((prefix_map_plain_append_spellOut_iff ha).mp hprefix)

/-- If the match begins inside none that still stands, it is put for those that are it and for
nothing else. -/
theorem gather_spellOut (ha : p.Replaceable a) {done : List α} {t : Text}
    (h : p.NoneInside name done a (p.pieces t)) :
    p.gather a (p.spellOut done (p.pieces t)) = p.spellOut (done ++ [a]) (p.pieces t) := by
  fun_induction pieces p t with
  | case1 => rw [spellOut, spellOut, gather]
  | case2 c cs b rest hread _ ih =>
    rw [spellOut, gather_stretch_append ha hread h.1, spellOut, ih h.2]
  | case3 c cs hread ih => rw [spellOut, gather_plain_of_not_read ha hread, spellOut, ih h]

/-- A match that the spelling begins inside has the other one put into it. -/
theorem exists_inside_of_not_outside (ha : p.Replaceable a) {done : List α} {b : α} {t rest : Text}
    (hread : p.read t = some (b, rest)) (k : Nat) (h : ¬ p.Outside name done a b (p.pieces rest)) :
    ∃ place, (place, a) ∈ p.places k
      (p.gather a (p.stretch done b ++ p.spellOut done (p.pieces rest))) ∧
      p.Inside k place (.hit b :: p.pieces rest) := by
  rw [Outside] at h
  push Not at h
  obtain ⟨hdone, hba, v, hs, hv, hprefix⟩ := h
  have hfirst : ¬ (p.spelling a).map .plain <+: (p.spelling b).map .plain ++ p.spellOut done
      (p.pieces rest) :=
    not_prefix_of_read ha hread hba
  obtain ⟨c, w, hw⟩ := List.exists_cons_of_ne_nil (p.spelling_ne_nil hread)
  have hlength : (p.spelling b).length = w.length + 1 := by rw [hw, List.length_cons]
  rw [List.mem_tails, hw, List.tail_cons] at hs
  -- The first character of the match stays, so it is put behind that.
  obtain ⟨place, hplace, hlt⟩ :=
    exists_place_of_spelled ha hv hs ((prefix_map_plain_append_spellOut_iff ha).mpr hprefix) (k + 1)
  have hle := (le_of_mem_places hplace).1
  rw [hw, List.map_cons, List.cons_append] at hfirst
  rw [stretch, if_neg hdone, hw, List.map_cons, List.cons_append, gather_plain hfirst, places]
  refine ⟨place, hplace, [], b, p.pieces rest, rfl, ?_, ?_⟩
  · rw [writeWith, List.length_nil]
    omega
  · rw [writeWith, List.length_nil]
    omega

theorem exists_inside_of_not_noneInside (ha : p.Replaceable a) {done : List α} (k : Nat) {t : Text}
    (h : ¬ p.NoneInside name done a (p.pieces t)) :
    ∃ place, (place, a) ∈ p.places k (p.gather a (p.spellOut done (p.pieces t))) ∧
      p.Inside k place (p.pieces t) := by
  fun_induction pieces p t generalizing k with
  | case1 => exact absurd trivial h
  | case2 c cs b rest hread _ ih =>
    rw [spellOut]
    by_cases hb : p.Outside name done a b (p.pieces rest)
    · obtain ⟨place, hplace, hinside⟩ := ih (k + (p.spelling b).length) fun hrest => h ⟨hb, hrest⟩
      rw [gather_stretch_append ha hread hb, places_append, writeWith_stretch, ite_self]
      exact ⟨place, List.mem_append_right _ hplace, hinside.hit_cons⟩
    · exact exists_inside_of_not_outside ha hread k hb
  | case3 c cs hread ih =>
    obtain ⟨place, hplace, hinside⟩ := ih (k + 1) h
    rw [spellOut, gather_plain_of_not_read ha hread, places]
    exact ⟨place, hplace, hinside.plain_cons⟩

/-! ## All replacements -/

theorem gatherAll_spellOut {done later : List α} (hlater : ∀ a ∈ later, p.Replaceable a) {t : Text}
    (h : p.Undisturbed name (p.pieces t) done later) :
    p.gatherAll later (p.spellOut done (p.pieces t)) = p.spellOut (done ++ later) (p.pieces t) := by
  induction later generalizing done with
  | nil => rw [gatherAll, List.append_nil]
  | cons a later ih =>
    obtain ⟨ha, hrest⟩ := List.forall_mem_cons.mp hlater
    rw [gatherAll, gather_spellOut ha h.1, ih hrest h.2, List.append_assoc, List.singleton_append]

theorem exists_inside_of_not_undisturbed {done later : List α}
    (hlater : ∀ a ∈ later, p.Replaceable a) {t : Text}
    (h : ¬ p.Undisturbed name (p.pieces t) done later) :
    ∃ place a, (place, a) ∈ p.places 0 (p.gatherAll later (p.spellOut done (p.pieces t))) ∧
      p.Inside 0 place (p.pieces t) := by
  induction later generalizing done with
  | nil => exact absurd trivial h
  | cons a later ih =>
    obtain ⟨ha, hrest⟩ := List.forall_mem_cons.mp hlater
    rw [gatherAll]
    by_cases hnone : p.NoneInside name done a (p.pieces t)
    · rw [gather_spellOut ha hnone]
      exact ih hrest fun hlater => h ⟨hnone, hlater⟩
    · obtain ⟨place, hplace, hinside⟩ := exists_inside_of_not_noneInside ha 0 hnone
      exact ⟨place, a, places_subset_gatherAll hrest 0 _ hplace, hinside⟩

theorem replaceAll_eq {found : List α} (hfound : ∀ a ∈ found, p.Replaceable a)
    (hname : ∀ b, '[' ∉ name b) (t : Text) : p.replaceAll name found t =
      writeWith (tokenOf name) (p.gatherAll found (p.spellOut [] (p.pieces t))) := by
  rw [← replaceAll_writeWith hfound hname, spellOut_nil_pieces, writeWith_map_plain]

theorem rewrite_withTokens (found : List α) (t : Text) :
    p.rewrite (p.withTokens name found) t =
      writeWith (tokenOf name) (p.spellOut found (p.pieces t)) :=
  (writeWith_spellOut ..).symm

theorem replaceAll_of_undisturbed {found : List α} (hfound : ∀ a ∈ found, p.Replaceable a)
    (hname : ∀ b, '[' ∉ name b) {t : Text} (h : p.Undisturbed name (p.pieces t) [] found) :
    p.replaceAll name found t = p.rewrite (p.withTokens name found) t := by
  rw [replaceAll_eq hfound hname, gatherAll_spellOut hfound h, rewrite_withTokens, List.nil_append]

theorem replaceAll_eq_rewrite_iff {found : List α} (hfound : ∀ a ∈ found, p.Replaceable a)
    (hname : Names name found) {t : Text} (ht : '\x00' ∉ t) :
    p.replaceAll name found t = p.rewrite (p.withTokens name found) t ↔
      p.Undisturbed name (p.pieces t) [] found := by
  refine ⟨fun h => ?_, replaceAll_of_undisturbed hfound hname.bracket_notMem⟩
  by_contra hdisturbed
  obtain ⟨place, a, hplace, hinside⟩ := exists_inside_of_not_undisturbed hfound hdisturbed
  -- Both rows spell the text, so they have no NUL of their own, and are one row.
  have hne {row : List (Piece α)} (hrow : writeWith p.spelling row = t) : ∀ c, .plain c ∈ row →
      c ≠ '\x00' := by
    rintro c hc rfl
    rw [← hrow] at ht
    exact ht (mem_writeWith.mpr (.inl hc))
  have hgathered : ∀ a, .hit a ∈ p.gatherAll found (p.spellOut [] (p.pieces t)) → a ∈ found := by
    intro a ha
    refine (mem_of_hit_mem_gatherAll hfound ha).resolve_right ?_
    simp [spellOut_nil_pieces]
  rw [replaceAll_eq hfound hname.bracket_notMem, rewrite_withTokens] at h
  have hrow := writeWith_tokenOf_inj hname
    (hne ((writeWith_spelling_gatherAll hfound _).trans (writeWith_spelling_spellOut_pieces ..)))
    (hne (writeWith_spelling_spellOut_pieces ..)) hgathered h
  rw [hrow] at hplace
  exact not_inside_of_mem_places (mem_places_of_spellOut hplace) hinside

theorem noneInside_of_silent (ha : p.Replaceable a) {ps : List (Piece α)}
    (h : ∀ b, .hit b ∈ ps → p.Silent (p.spelling b).tail) (done : List α) :
    p.NoneInside name done a ps := by
  induction ps with
  | nil => trivial
  | cons piece ps ih =>
    have ih := ih fun b hb => h b (List.mem_cons_of_mem _ hb)
    cases piece with
    | plain c => exact ih
    | hit b =>
      refine ⟨fun _ _ v hs hv hprefix => ?_, ih⟩
      have hsilent := (h b (List.mem_cons_self ..)).of_suffix ((List.mem_tails ..).mp hs)
      obtain ⟨c, v, rfl⟩ := List.exists_cons_of_ne_nil hv
      obtain ⟨rest, hrest⟩ := hprefix
      have hnone := hsilent.1 (writeWith (p.withTokens name done) ps)
      rw [← List.cons_append, ← hrest, ha.always] at hnone
      cases hnone

/-- If the pattern reads nothing inside the matches, they are undisturbed. -/
theorem undisturbed_of_silent {found : List α} (hfound : ∀ a ∈ found, p.Replaceable a)
    {ps : List (Piece α)} (h : ∀ b, .hit b ∈ ps → p.Silent (p.spelling b).tail) (done : List α) :
    p.Undisturbed name ps done found := by
  induction found generalizing done with
  | nil => trivial
  | cons a found ih =>
    obtain ⟨ha, hrest⟩ := List.forall_mem_cons.mp hfound
    exact ⟨noneInside_of_silent ha h done, ih hrest _⟩

/-! ## Numbered tokens -/

/-- The name of a match's token, if the tokens of the found matches are numbered from `n`. -/
def numberedName (label : Text) (n : Nat) (found : List α) (a : α) : Text :=
  tokenName label (n + found.idxOf a)

section

variable {label : Text} {n : Nat} {found : List α}

theorem bracket_notMem_numberedName (h : '[' ∉ label) (a : α) :
    '[' ∉ numberedName label n found a :=
  notMem_tokenName h (by decide) _

theorem names_numberedName (hnul : '\x00' ∉ label) (hbracket : '[' ∉ label) :
    Names (numberedName label n found) found where
  nul_notMem _ := notMem_tokenName hnul (by decide) _
  bracket_notMem := bracket_notMem_numberedName hbracket
  inj a ha b h := (List.idxOf_inj ha).mp (Nat.add_left_cancel (tokenName_inj.mp h))

theorem tokenOf_numberedName (s : Stash) (a : α) :
    tokenOf (numberedName s.label n found) a = s.token (n + found.idxOf a) :=
  (s.token_eq _).symm

/-- The tokens of distinct matches are put by replacing one match after another. -/
theorem tokensFor_map_spelling (h : found.Nodup) (t : Text) :
    Stash.tokensFor label n (found.map p.spelling) t =
      p.replaceAll (numberedName label n found) found t := by
  refine tokensFor_eq_replaceAll (fun i a ha => ?_) t
  obtain ⟨hi, rfl⟩ := List.getElem?_eq_some_iff.mp ha
  rw [numberedName, h.idxOf_getElem]

end

end Pattern

end TaskBulletin
