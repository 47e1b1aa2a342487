import TaskBulletin.Proofs.Cut
import TaskBulletin.Proofs.Spelling

/-!
# What an excerpt shows and leaves open

An excerpt is read again with its ellipsis and its closing tags. If no angle bracket
opens outside the tags of the text, the tags of the excerpt are those before the cut and
the closing tags, so nothing is left open. In any text an opening angle bracket in front
of the cut can at most begin a tag with the first closing tag; that only hides text, so
an excerpt never shows more than its budget and the ellipsis.
-/

namespace TaskBulletin.Html

open Pattern

theorem spelling_tag_eq {s : Span Text Text} (h : tag.Reads s) :
    tag.spelling s = '<' :: (s.content ++ ['>']) := by
  obtain ⟨t, rest, h⟩ := h
  obtain ⟨ho, hc, -⟩ := read_tag_eq_some_iff.mp h
  exact @spelling_delimited '<' '>' (· != '>') s ho hc

/-! ## Reading an excerpt again -/

namespace Cut

variable {t : Text} (cut : Cut t)

theorem pieces_ending :
    tag.pieces cut.ending = .plain ellipsis :: cut.opened.map fun name =>
      .hit (closingSpan name) := by
  rw [ending, pieces_of_not_read _ (begins_tag _ _ (by decide)),
    pieces_closingTags cut.isName_opened]

theorem exists_front : ∃ front, ∃ blanks : Text, cut.before = front ++ blanks.map .plain ∧
    (∀ c ∈ blanks, Text.isBlank c = true) ∧
      Text.trimEnd cut.kept = writeWith tag.spelling front ∧
      (∃ rest, tag.pieces t = front ++ rest) := by
  have hread : ∀ s, .hit s ∈ cut.before → tag.Reads s := by
    intro s hs
    apply reads_of_mem_pieces (t := t)
    rw [cut.pieces_eq]
    exact List.mem_append_left _ hs
  have hends : ∀ s, .hit s ∈ cut.before → ∃ u c, tag.spelling s = u ++ [c] ∧
      Text.isBlank c = false :=
    fun s hs => ⟨'<' :: s.content, '>', spelling_tag_eq (hread s hs), by decide⟩
  obtain ⟨front, blanks, hbefore, hb, htrim⟩ := exists_trimEnd_writeWith cut.before hends
  exact ⟨front, blanks, hbefore, hb, htrim, blanks.map .plain ++ cut.after,
    by rw [cut.pieces_eq, hbefore, List.append_assoc]⟩

/-- A match that goes on into the ending takes the first closing tag; the others follow it. -/
theorem pieces_rest_of_straddle {front : List (Piece (Span Text Text))}
    {s : Straddle (Span Text Text)} (h : s.Across tag front cut.ending) :
    s.first = '<' ∧ plainText (tag.pieces s.rest) = [] := by
  obtain ⟨hfirst, w, hw, hend⟩ := exists_tag_ending h
  refine ⟨hfirst, ?_⟩
  have hw : ∀ d ∈ w, (d != '>') = true := fun d hd => hw d (List.mem_append_right _ hd)
  have hread : readTo (· != '>') (exact ['>']) cut.ending = some (w, ['>'], s.rest) :=
    (readTo_exact_eq_some_iff rfl).mpr ⟨rfl, hw, hend⟩
  cases hopened : cut.opened with
  | nil =>
    rw [ending, hopened, List.map_nil, List.flatten_nil] at hend
    cases w with
    | nil => exact absurd (List.cons.inj hend).1 (by decide)
    | cons c w => simp at hend
  | cons name names =>
    have hnames : ∀ n ∈ name :: names, IsName n := hopened ▸ cut.isName_opened
    have hname : ∀ d ∈ ellipsis :: '<' :: '/' :: name, (d != '>') = true := by
      intro d hd
      rw [bne_iff_ne]
      rintro rfl
      simp only [List.mem_cons] at hd
      rcases hd with hd | hd | hd | hd
      · exact absurd hd (by decide)
      · exact absurd hd (by decide)
      · exact absurd hd (by decide)
      · exact absurd ((hnames name (List.mem_cons_self ..)).alphanum _ hd) (by decide)
    have hread' : readTo (· != '>') (exact ['>']) cut.ending =
        some (ellipsis :: '<' :: '/' :: name, ['>'], (names.map closingTag).flatten) := by
      refine (readTo_exact_eq_some_iff rfl).mpr ⟨rfl, hname, ?_⟩
      rw [ending, hopened]
      simp [closingTag]
    have hrest : s.rest = (names.map closingTag).flatten := by
      rw [hread] at hread'
      simp only [Option.some.injEq, Prod.mk.injEq] at hread'
      exact hread'.2.2
    rw [hrest, pieces_closingTags fun n hn => hnames n (List.mem_cons_of_mem _ hn)]
    exact plainText_map_hit names closingSpan

/-! ## What an excerpt shows -/

/-- The text before the cut shows no more than its tokens, run by run. -/
theorem length_tokens_front_le {front : List (Piece (Span Text Text))} {blanks : Text}
    (hbefore : cut.before = front ++ blanks.map .plain)
    (hb : ∀ c ∈ blanks, Text.isBlank c = true) : (tokens (plainText front)).length ≤ cut.size := by
  refine le_trans ?_ (length_tokens_plainText_le cut.before)
  rw [hbefore, plainText_append, plainText_map_plain]
  cases blanks with
  | nil => rw [List.append_nil]
  | cons c blanks =>
    exact length_tokens_le_of_breaks (breaks_of_isBlank (hb c (List.mem_cons_self ..))) _ _

theorem visibleSize_le_of_straddle {front : List (Piece (Span Text Text))} {blanks : Text}
    (hbefore : cut.before = front ++ blanks.map .plain)
    (hb : ∀ c ∈ blanks, Text.isBlank c = true) {s : Straddle (Span Text Text)}
    (h : s.Across tag front cut.ending) :
    visibleSize (writeWith tag.spelling front ++ cut.ending) ≤ cut.size := by
  have hfront := cut.length_tokens_front_le hbefore hb
  obtain ⟨hfirst, hrest⟩ := cut.pieces_rest_of_straddle h
  have hstrip : stripTags (writeWith tag.spelling front ++ cut.ending) = plainText s.earlier := by
    change plainText (tag.pieces _) = _
    rw [h.pieces_eq, plainText_append, plainText_hit, hrest, List.append_nil]
  rw [h.front_eq, plainText_append, plainText_plain, hfirst] at hfront
  rw [visibleSize, hstrip]
  exact (length_tokens_le_of_breaks (c := '<') ⟨by decide, by decide⟩ _ _).trans hfront

/-- What stands before a cut, with the ellipsis and the closing tags, shows at most one
token more than stands before it. -/
theorem visibleSize_append_ending_le :
    visibleSize (Text.trimEnd cut.kept ++ cut.ending) ≤ cut.size + 1 := by
  obtain ⟨front, blanks, hbefore, hb, htrim, rest, hpieces⟩ := cut.exists_front
  have hfront := cut.length_tokens_front_le hbefore hb
  rw [htrim]
  rcases pieces_append_or_straddle selfDelimiting_tag hpieces cut.ending with h | ⟨s, h⟩
  · have hstrip : stripTags (writeWith tag.spelling front ++ cut.ending) =
        plainText front ++ [ellipsis] := by
      change plainText (tag.pieces _) = _
      rw [h, plainText_append, pieces_ending, plainText_plain, plainText_map_hit]
    rw [visibleSize, hstrip, tokens_append_of_breaks ⟨by decide, by decide⟩,
      tokens_singleton (by decide), List.length_append]
    exact Nat.add_le_add_right hfront 1
  · exact (cut.visibleSize_le_of_straddle hbefore hb h).trans (Nat.le_succ _)

/-! ## What an excerpt leaves open -/

/-- Without an opening angle bracket outside tags, the tags of an excerpt are those before
the cut and the closing tags. -/
theorem tagRoles_append_ending (ht : .plain '<' ∉ tag.pieces t) :
    tagRoles (Text.trimEnd cut.kept ++ cut.ending) =
      rolesOf cut.before ++ cut.opened.map .closes := by
  obtain ⟨front, blanks, hbefore, -, htrim, rest, hpieces⟩ := cut.exists_front
  rw [htrim]
  rcases pieces_append_or_straddle selfDelimiting_tag hpieces cut.ending with h | ⟨s, h⟩
  · rw [tagRoles, h, pieces_ending, rolesOf_append, rolesOf_plain,
      rolesOf_closingTags cut.isName_opened, hbefore, rolesOf_append, rolesOf_map_plain,
      List.append_nil]
  · obtain ⟨hfirst, -⟩ := cut.pieces_rest_of_straddle h
    refine absurd ?_ ht
    rw [hpieces, h.front_eq, hfirst]
    simp

end Cut

/-- An excerpt of a text shows nothing without a budget, no more than its budget if the
text fits, and else at most the budget and the ellipsis. -/
theorem visibleSize_excerpt_le (n : Int) (t : Text) :
    (visibleSize (excerpt n t) : Int) ≤
      if n ≤ 0 then 0 else if visibleSize t ≤ n then n else n + 1 := by
  split
  · rename_i hn
    rw [excerpt, if_pos hn, visibleSize, stripTags, rewrite_nil, tokens_nil]
    exact le_refl _
  · rename_i hn
    split
    · rename_i hfits
      rwa [excerpt, if_neg hn, if_pos hfits]
    · rename_i hlong
      obtain ⟨cut, hsize, -, -, he⟩ := exists_excerpt_eq (by omega) (not_le.mp hlong)
      have hle := cut.visibleSize_append_ending_le
      rw [he]
      omega

/-- If no angle bracket opens outside the tags of a text, its excerpt leaves nothing open,
and no closing tag of the excerpt is mismatched unless one of the text is. -/
theorem excerpt_leaves_nothing_open {n : Int} {t : Text} (ht : .plain '<' ∉ tag.pieces t)
    (hn : 1 ≤ n) (hlong : n < visibleSize t) :
    openElements (excerpt n t) = [] ∧
      (Matched [] (tagRoles t) → WellNested (excerpt n t)) := by
  obtain ⟨cut, -, -, -, he⟩ := exists_excerpt_eq hn hlong
  have hroles := cut.tagRoles_append_ending ht
  rw [← he] at hroles
  have hclosed : openElements (excerpt n t) = [] := by
    rw [openElements, hroles, openAfterAll_append]
    exact openAfterAll_closes cut.opened
  refine ⟨hclosed, fun hmatched => ⟨?_, hclosed⟩⟩
  rw [tagRoles, cut.pieces_eq, rolesOf_append, matched_append] at hmatched
  rw [hroles, matched_append]
  exact ⟨hmatched.1, matched_closes cut.opened⟩

theorem excerpt_leaves_nothing_open_anchorInBold :
    .plain '<' ∉ tag.pieces "<B>a<br><a href=\"u\">b&lt;c</a></B>".toList ∧ (1 : Int) ≤ 2 ∧
      (2 : Int) < visibleSize "<B>a<br><a href=\"u\">b&lt;c</a></B>".toList ∧
      Matched [] (tagRoles "<B>a<br><a href=\"u\">b&lt;c</a></B>".toList) ∧
      openElements (excerpt 2 "<B>a<br><a href=\"u\">b&lt;c</a></B>".toList) = [] ∧
      WellNested (excerpt 2 "<B>a<br><a href=\"u\">b&lt;c</a></B>".toList) := by
  have ht : .plain '<' ∉ tag.pieces "<B>a<br><a href=\"u\">b&lt;c</a></B>".toList := by
    decide +kernel
  have hlong : (2 : Int) < visibleSize "<B>a<br><a href=\"u\">b&lt;c</a></B>".toList := by
    decide +kernel
  have hmatched : Matched [] (tagRoles "<B>a<br><a href=\"u\">b&lt;c</a></B>".toList) := by
    decide +kernel
  obtain ⟨hclosed, hnested⟩ := excerpt_leaves_nothing_open ht (by decide) hlong
  exact ⟨ht, by decide, hlong, hmatched, hclosed, hnested hmatched⟩

example : excerpt 2 "<B>a<br><a href=\"u\">b&lt;c</a></B>".toList =
    "<B>a<br><a href=\"u\">b…</a></b>".toList := by decide +kernel

end TaskBulletin.Html
