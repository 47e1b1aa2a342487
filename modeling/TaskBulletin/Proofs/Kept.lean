import TaskBulletin.Bracket.Conversion
import TaskBulletin.Proofs.Spelling
import TaskBulletin.Proofs.Token

/-!
# Characters that passes keep

Spacing drops blanks, and the flattening of lists and paragraphs drops tags in brackets
and writes numbers and bullets. All other characters stay in their order. So with only
some characters of another kind kept, a text is the same before and after.
-/

namespace TaskBulletin

namespace Text

/-- The text with only these characters kept. -/
def only (chars t : Text) : Text := t.filter fun c => chars.contains c

section

variable {chars : Text} {d : Char} {t : Text}

@[simp] theorem only_nil (chars : Text) : only chars [] = [] := rfl

@[simp] theorem only_append (chars t u : Text) :
    only chars (t ++ u) = only chars t ++ only chars u :=
  List.filter_append ..

theorem only_cons (chars : Text) (c : Char) (t : Text) :
    only chars (c :: t) = if chars.contains c then c :: only chars t else only chars t := by
  rw [only, List.filter_cons]
  rfl

theorem only_cons_of_notMem {c : Char} (hc : c ∉ chars) (t : Text) :
    only chars (c :: t) = only chars t := by
  rw [only_cons, if_neg (by simpa using hc)]

theorem only_eq_nil_iff : only chars t = [] ↔ ∀ d ∈ chars, d ∉ t := by
  rw [only, List.filter_eq_nil_iff]
  constructor
  · intro h d hd ht
    exact h d ht (List.contains_iff_mem.mpr hd)
  · intro h c hc hm
    exact h c (List.contains_iff_mem.mp hm) hc

theorem mem_only_iff (hd : d ∈ chars) : d ∈ only chars t ↔ d ∈ t := by
  rw [only, List.mem_filter, List.contains_iff_mem]
  exact and_iff_left hd

theorem count_only (hd : d ∈ chars) : (only chars t).count d = t.count d :=
  List.count_filter (List.contains_iff_mem.mpr hd)

/-- A change that keeps a character among others keeps whether it is there. -/
theorem mem_iff_of_only_eq {t u : Text} (hd : d ∈ chars) (h : only chars t = only chars u) :
    d ∈ t ↔ d ∈ u := by
  rw [← mem_only_iff hd, h, mem_only_iff hd]

theorem count_eq_of_only_eq {t u : Text} (hd : d ∈ chars) (h : only chars t = only chars u) :
    t.count d = u.count d := by
  rw [← count_only hd, h, count_only hd]

end

/-! ## Spacing -/

section

variable {chars : Text} (hb : ∀ d ∈ chars, isBlank d = false)
include hb

theorem notMem_of_isBlank {c : Char} (hc : isBlank c = true) : c ∉ chars := by
  intro hm
  rw [hb c hm] at hc
  cases hc

theorem only_eq_nil_of_blank {t : Text} (h : blank t = true) : only chars t = [] := by
  rw [only_eq_nil_iff]
  intro d hd ht
  exact notMem_of_isBlank hb (List.all_eq_true.mp h d ht) hd

theorem only_dropWhile_isBlank (t : Text) : only chars (t.dropWhile isBlank) = only chars t := by
  induction t with
  | nil => rfl
  | cons c t ih =>
    rw [List.dropWhile_cons]
    split
    · rename_i hc
      rw [ih, only_cons_of_notMem (notMem_of_isBlank hb hc)]
    · rfl

theorem only_trim (t : Text) : only chars (trim t) = only chars t := by
  have hreverse (u : Text) : only chars u.reverse = (only chars u).reverse := List.filter_reverse
  unfold trim trimEnd trimStart
  rw [hreverse, only_dropWhile_isBlank hb, hreverse, List.reverse_reverse,
    only_dropWhile_isBlank hb]

theorem only_unifyLineEnds (t : Text) : only chars (unifyLineEnds t) = only chars t := by
  have hreturn : '\r' ∉ chars := notMem_of_isBlank hb (by decide)
  have hfeed : '\n' ∉ chars := notMem_of_isBlank hb (by decide)
  fun_induction unifyLineEnds t with
  | case1 => rfl
  | case2 t ih =>
    rw [only_cons_of_notMem hfeed, only_cons_of_notMem hreturn, only_cons_of_notMem hfeed, ih]
  | case3 c t _ ih =>
    by_cases hc : c = '\r'
    · subst hc
      rw [if_pos rfl, only_cons_of_notMem hfeed, only_cons_of_notMem hreturn, ih]
    · rw [if_neg hc, only_cons, only_cons, ih]

theorem only_limitLineFeeds (seen : Nat) (t : Text) :
    only chars (limitLineFeeds seen t) = only chars t := by
  induction t generalizing seen with
  | nil => rfl
  | cons c t ih =>
    unfold limitLineFeeds
    by_cases hc : c = '\n'
    · subst hc
      rw [if_pos rfl]
      split
      · rw [only_cons, only_cons, ih]
      · rw [ih, only_cons_of_notMem (notMem_of_isBlank hb (by decide))]
    · rw [if_neg hc, only_cons, only_cons, ih]

theorem only_normalizeSpacing (t : Text) : only chars (normalizeSpacing t) = only chars t := by
  rw [normalizeSpacing, only_trim hb, only_limitLineFeeds hb, only_unifyLineEnds hb]

end

theorem only_intercalate {chars sep : Text} (hs : only chars sep = []) (ts : List Text) :
    only chars (List.intercalate sep ts) = ts.flatMap (only chars) := by
  induction ts with
  | nil => rfl
  | cons t ts ih =>
    cases ts with
    | nil => simp
    | cons u us =>
      rw [List.intercalate_cons_cons, only_append, only_append, hs, List.append_nil, ih]
      rfl

end Text

namespace Pattern

open Text

variable {α β : Type} {chars : Text}

/-- A pass keeps the characters of the text if each replacement has those of the match. -/
theorem only_rewrite {p : Pattern α} {f : α → Text} {t : Text}
    (h : ∀ a ∈ p.hits t, only chars (f a) = only chars (p.spelling a)) :
    only chars (p.rewrite f t) = only chars t := by
  conv_rhs => rw [← p.writeWith_spelling_pieces t]
  simp only [mem_hits_iff] at h
  rw [rewrite]
  generalize p.pieces t = ps at h
  induction ps with
  | nil => rfl
  | cons piece ps ih =>
    have ih := ih fun a ha => h a (List.mem_cons_of_mem _ ha)
    cases piece with
    | plain c => rw [writeWith, writeWith, only_cons, only_cons, ih]
    | hit a => rw [writeWith, writeWith, only_append, only_append, ih, h a (List.mem_cons_self ..)]

theorem only_spelling_eq_nil {p : Pattern α} (hp : ∀ d ∈ chars, p.Lacks d) {a : α} (h : p.Reads a) :
    only chars (p.spelling a) = [] :=
  only_eq_nil_iff.mpr fun d hd => hp d hd a h

/-- What is kept of a match is what is kept of its opener and of its content. -/
theorem only_spelling_between {opener : Pattern α} {allowed : Char → Bool} {closer : Pattern β}
    (hclose : ∀ d ∈ chars, closer.Lacks d) {s : Span α β}
    (h : (between opener allowed closer).Reads s) :
    only chars ((between opener allowed closer).spelling s) =
      only chars (opener.spelling s.opener) ++ only chars s.content := by
  obtain ⟨-, -, hb⟩ := h.between
  rw [spelling_between, only_append, only_append, only_spelling_eq_nil hclose hb, List.append_nil]

theorem only_spelling_between_of_lacks {opener : Pattern α} {allowed : Char → Bool}
    {closer : Pattern β} (hopen : ∀ d ∈ chars, opener.Lacks d)
    (hclose : ∀ d ∈ chars, closer.Lacks d) {s : Span α β}
    (h : (between opener allowed closer).Reads s) :
    only chars ((between opener allowed closer).spelling s) = only chars s.content := by
  obtain ⟨ho, -, -⟩ := h.between
  rw [only_spelling_between hclose h, only_spelling_eq_nil hopen ho, List.nil_append]

theorem only_rewrite_between {opener : Pattern α} {allowed : Char → Bool} {closer : Pattern β}
    (hopen : ∀ d ∈ chars, opener.Lacks d) (hclose : ∀ d ∈ chars, closer.Lacks d)
    {f : Span α β → Text} (hf : ∀ s, only chars (f s) = only chars s.content) (t : Text) :
    only chars ((between opener allowed closer).rewrite f t) = only chars t := by
  apply only_rewrite
  intro s hs
  rw [hf, only_spelling_between_of_lacks hopen hclose (reads_of_mem_hits hs)]

theorem flatMap_only_split {p : Pattern α} (hp : ∀ d ∈ chars, p.Lacks d) (t : Text) :
    (p.split t).flatMap (only chars) = only chars t := by
  conv_rhs => rw [← p.writeWith_spelling_pieces t]
  have hread : ∀ a, .hit a ∈ p.pieces t → only chars (p.spelling a) = [] :=
    fun a ha => only_spelling_eq_nil hp (reads_of_mem_pieces ha)
  rw [split]
  generalize p.pieces t = ps at hread
  induction ps with
  | nil => rfl
  | cons piece ps ih =>
    have ih := ih fun a ha => hread a (List.mem_cons_of_mem _ ha)
    cases piece with
    | plain c =>
      rw [writeWith, only_cons, ← ih, runsOf]
      cases runsOf ps with
      | nil => simp [only_cons]
      | cons run runs =>
        simp only [List.flatMap_cons, only_cons]
        split <;> rfl
    | hit a =>
      rw [writeWith, only_append, hread a (List.mem_cons_self ..), ← ih, runsOf]
      rfl

end Pattern

namespace Bracket

open Text Pattern

/-! ## Elements -/

section

variable {chars : Text} (hc : ∀ d ∈ chars, ∀ x ∈ "[/]=".toList, Text.spells x d = false)
  {name : Text} (hn : ∀ d ∈ chars, ∀ x ∈ name, Text.spells x d = false)
include hc hn

theorem only_spelling_paired {e : Span Text Text} (h : (paired name).Reads e) :
    only chars ((paired name).spelling e) = only chars e.content :=
  only_spelling_between_of_lacks (fun d hd => lacks_opening (hc d hd) (hn d hd))
    (fun d hd => lacks_closing (hc d hd) (hn d hd)) h

theorem only_rewrite_paired {f : Span Text Text → Text}
    (hf : ∀ s, only chars (f s) = only chars s.content) (t : Text) :
    only chars ((paired name).rewrite f t) = only chars t := by
  apply only_rewrite
  intro e he
  rw [hf, only_spelling_paired hc hn (reads_of_mem_hits he)]

theorem only_spelling_pairedWithValue {e : Span (Span Text Text) Text}
    (h : (pairedWithValue name).Reads e) :
    only chars ((pairedWithValue name).spelling e) =
      only chars e.opener.content ++ only chars e.content := by
  obtain ⟨hv, -, -⟩ := h.between
  have hvalue : only chars ((valued (name ++ ['='])).spelling e.opener) =
      only chars e.opener.content := by
    refine only_spelling_between_of_lacks (fun d hd => lacks_head (hc d hd) (hn d hd)) ?_ hv
    intro d hd
    apply lacks_exact
    intro hm
    rw [List.mem_singleton.mp hm] at hd
    have hs := hc ']' hd ']' (by decide)
    revert hs
    decide
  have hspelling : only chars ((pairedWithValue name).spelling e) =
      only chars ((valued (name ++ ['='])).spelling e.opener) ++ only chars e.content :=
    only_spelling_between (fun d hd => lacks_closing (hc d hd) (hn d hd)) h
  rw [hspelling, hvalue]

end

/-! ## Lists and paragraphs -/

/-- Characters that are foreign to the spacing, the tags and the marks of blocks. -/
structure Foreign (chars : Text) : Prop where
  blank : ∀ d ∈ chars, isBlank d = false
  digit : ∀ d ∈ chars, d.isDigit = false
  spelled : ∀ d ∈ chars, ∀ x ∈ "[/=]LIST1P*.•".toList, Text.spells x d = false

section

variable {chars : Text} (hf : Foreign chars)
include hf

theorem Foreign.spelled_of_subset {w : Text} (hw : ∀ x ∈ w, x ∈ "[/=]LIST1P*.•".toList) :
    ∀ d ∈ chars, ∀ x ∈ w, Text.spells x d = false :=
  fun d hd x hx => hf.spelled d hd x (hw x hx)

theorem Foreign.notMem {x : Char} (hx : x ∈ "[/=]LIST1P*.•".toList) : x ∉ chars := by
  intro hm
  have hs := hf.spelled x hm x hx
  simp [Text.spells] at hs

theorem only_rewrite_paragraph {f : Span Text Text → Text}
    (h : ∀ s, only chars (f s) = only chars s.content) (t : Text) :
    only chars (paragraph.rewrite f t) = only chars t :=
  only_rewrite_paired (hf.spelled_of_subset (by decide)) (hf.spelled_of_subset (by decide)) h t

theorem flatMap_only_listItems (content : Text) :
    (listItems content).flatMap (only chars) = only chars content := by
  have hmark : ∀ d ∈ chars, itemMark.Lacks d := by
    intro d hd
    apply lacks_exact
    intro hm
    have hsigns : ∀ x ∈ "[*]".toList, x ∈ "[/=]LIST1P*.•".toList := by decide
    exact hf.notMem (hsigns d hm) hd
  rw [← flatMap_only_split hmark content, listItems]
  induction itemMark.split content with
  | nil => rfl
  | cons run runs ih =>
    rw [List.filter_cons]
    cases hb : blank run with
    | true =>
      rw [List.flatMap_cons, only_eq_nil_of_blank hf.blank hb, List.nil_append, ← ih]
      rfl
    | false =>
      have hitem : only chars (paragraph.rewrite Span.content (trim run)) = only chars run := by
        rw [only_rewrite_paragraph hf fun _ => rfl, only_trim hf.blank]
      rw [List.flatMap_cons, ← ih, ← hitem]
      rfl

theorem only_ofNat (n : Nat) : only chars (Text.ofNat n) = [] :=
  only_eq_nil_iff.mpr fun d hd => notMem_ofNat (hf.digit d hd) n

theorem only_dot : only chars ". ".toList = [] := by
  have hdot : '.' ∉ chars := hf.notMem (by decide)
  have hspace : ' ' ∉ chars := notMem_of_isBlank hf.blank (by decide)
  exact (only_cons_of_notMem hdot _).trans (only_cons_of_notMem hspace _)

theorem only_bullet : only chars "• ".toList = [] := by
  have hbullet : '•' ∉ chars := hf.notMem (by decide)
  have hspace : ' ' ∉ chars := notMem_of_isBlank hf.blank (by decide)
  exact (only_cons_of_notMem hbullet _).trans (only_cons_of_notMem hspace _)

theorem only_lineFeed : only chars ['\n'] = [] :=
  only_cons_of_notMem (notMem_of_isBlank hf.blank (by decide)) _

theorem flatMap_only_numberFrom (n : Nat) (items : List Text) :
    (numberFrom n items).flatMap (only chars) = items.flatMap (only chars) := by
  induction items generalizing n with
  | nil => rfl
  | cons item items ih =>
    rw [numberFrom, List.flatMap_cons, List.flatMap_cons, ih, only_append, only_append,
      only_ofNat hf, only_dot hf]
    rfl

theorem only_numberedLines (content : Text) :
    only chars (numberedLines content) = only chars content := by
  rw [numberedLines, only_intercalate (only_lineFeed hf), flatMap_only_numberFrom hf,
    flatMap_only_listItems hf]

theorem only_bulletLines (content : Text) :
    only chars (bulletLines content) = only chars content := by
  have hline (item : Text) : only chars ("• ".toList ++ item) = only chars item := by
    rw [only_append, only_bullet hf, List.nil_append]
  rw [bulletLines, only_intercalate (only_lineFeed hf), ← flatMap_only_listItems hf,
    List.flatMap_map]
  simp only [hline]

theorem only_flattenBlocks (t : Text) : only chars (flattenBlocks t) = only chars t := by
  have hparagraph (p : Span Text Text) : only chars (p.content ++ ['\n']) =
      only chars p.content := by
    rw [only_append, only_lineFeed hf, List.append_nil]
  unfold flattenBlocks
  rw [only_rewrite_paragraph hf hparagraph, bulletList,
    only_rewrite_paired (hf.spelled_of_subset (by decide)) (hf.spelled_of_subset (by decide))
      fun _ => only_bulletLines hf _, numberedList,
    only_rewrite_between (fun d hd => lacks_word (hf.spelled_of_subset (by decide) d hd))
      (fun d hd => lacks_word (hf.spelled_of_subset (by decide) d hd))
      fun _ => only_numberedLines hf _]

end

end Bracket

end TaskBulletin
