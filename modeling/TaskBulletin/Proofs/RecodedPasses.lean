import TaskBulletin.Bracket.Conversion
import TaskBulletin.Proofs.Mirror
import TaskBulletin.Proofs.Trimming
import Mathlib.Data.List.Induction

/-!
# The passes over a recoded text

Under a recoding that knows every character and leaves the characters of HTML
alone, each pass after the escaping gives the recoding of what it gives for the
text itself: blocks, inline elements, unsupported tags and spacing.
-/

namespace TaskBulletin

open Pattern Recoding

variable {R : Recoding}

/-! ## Classes of characters that every recoding keeps -/

theorem mem_code {c d : Char} (hc : R.known c) (hd : d ∈ R.code c) :
    d = c ∨ isQuiet c = true ∧ (isQuiet d = true ∨ d ∈ codeTail) := by
  rcases R.same_or_quiet hc with h | ⟨hq, x, w, h, hx, hw⟩
  · rw [h, List.mem_singleton] at hd
    exact .inl hd
  · rw [h] at hd
    rcases List.mem_cons.mp hd with rfl | hd
    · exact .inr ⟨hq, .inl hx⟩
    · exact .inr ⟨hq, .inr (hw d hd)⟩

theorem keeps_of_quiet {kind : Char → Bool} (hq : ∀ c, isQuiet c = true → kind c = true)
    (ht : ∀ e ∈ codeTail, kind e = true) : Keeps R kind := by
  refine keeps_of_mem fun c hc e he => ?_
  rcases mem_code hc he with rfl | ⟨hcq, heq | heq⟩
  · rfl
  · rw [hq e heq, hq c hcq]
  · rw [ht e heq, hq c hcq]

theorem keeps_of_not_quiet {kind : Char → Bool} (hq : ∀ c, isQuiet c = true → kind c = false) :
    Keeps R kind := by
  intro c hc
  rcases R.same_or_quiet hc with h | ⟨hcq, x, v, h, hx, -⟩
  · simp [h]
  · simp [h, hq c hcq, hq x hx]

theorem keeps_true : Keeps R fun _ => true := by
  intro c hc
  simp

theorem ne_of_isQuiet {x c : Char} (hx : isQuiet x = false) (hc : isQuiet c = true) : c ≠ x := by
  rintro rfl
  rw [hc] at hx
  cases hx

theorem keeps_ne {x : Char} (hx : isQuiet x = false) (ht : x ∉ codeTail) :
    Keeps R (· != x) := by
  refine keeps_of_quiet (fun c hc => ?_) fun e he => ?_
  · exact bne_iff_ne.mpr (ne_of_isQuiet hx hc)
  · rw [bne_iff_ne]
    rintro rfl
    exact ht he

theorem notMem_code {x c : Char} (hx : isQuiet x = false) (ht : x ∉ codeTail) (hc : R.known c)
    (hne : c ≠ x) : x ∉ R.code c := by
  intro hm
  rcases mem_code hc hm with rfl | ⟨-, hq | he⟩
  · exact hne rfl
  · exact ne_of_isQuiet hx hq rfl
  · exact ht he

theorem code_eq_cons_ne {x c : Char} (hx : isQuiet x = false) (ht : x ∉ codeTail)
    (hc : R.known c) (hne : c ≠ x) : ∃ d w, R.code c = d :: w ∧ d ≠ x := by
  obtain ⟨d, w, hd, -⟩ := code_eq_cons hc
  have hm := notMem_code hx ht hc hne
  rw [hd, List.mem_cons, not_or] at hm
  exact ⟨d, w, hd, Ne.symm hm.1⟩

/-! ## The patterns of tags -/

namespace Bracket

theorem mirrors_tag {w : Text} (hw : ∀ x ∈ w, isLoud x = true) :
    Mirrors (word ('[' :: w)) (word ('[' :: w)) R id := by
  refine mirrors_word (fun y hy => ?_) (by decide)
  rcases List.mem_cons.mp hy with rfl | hy
  · decide
  · exact hw y hy

theorem mirrors_bracketEnd : Mirrors (exact [']']) (exact [']']) R id :=
  mirrors_exact (by decide) (by decide)

theorem mirrors_valued {head : Text} (hh : ∀ x ∈ head, isLoud x = true) :
    Mirrors (valued head) (valued head) R (recodeSpan R id id) :=
  (mirrors_tag hh).between mirrors_bracketEnd (keeps_ne (by decide) (by decide))

theorem mirrors_bracketed : Mirrors bracketed bracketed R (recodeSpan R id id) :=
  Mirrors.between (mirrors_exact (by decide) (by decide)) mirrors_bracketEnd
    (keeps_ne (by decide) (by decide))

theorem isLoud_append {u v : Text} (hu : ∀ x ∈ u, isLoud x = true)
    (hv : ∀ x ∈ v, isLoud x = true) : ∀ x ∈ u ++ v, isLoud x = true := by
  simpa [or_imp, forall_and] using ⟨hu, hv⟩

theorem mirrors_closer {name : Text} (hn : ∀ x ∈ name, isLoud x = true) :
    Mirrors (word ('[' :: '/' :: name ++ [']'])) (word ('[' :: '/' :: name ++ [']'])) R id :=
  mirrors_tag (isLoud_append (u := '/' :: name)
    (by simpa using ⟨by decide, hn⟩) (by decide))

theorem mirrors_paired {name : Text} (hn : ∀ x ∈ name, isLoud x = true) :
    Mirrors (paired name) (paired name) R (recodeSpan R id id) :=
  Mirrors.between (mirrors_tag (isLoud_append hn (by decide))) (mirrors_closer hn) keeps_true

theorem mirrors_pairedWithValue {name : Text} (hn : ∀ x ∈ name, isLoud x = true) :
    Mirrors (pairedWithValue name) (pairedWithValue name) R
      (recodeSpan R (recodeSpan R id id) id) :=
  Mirrors.between (mirrors_valued (isLoud_append hn (by decide))) (mirrors_closer hn) keeps_true

end Bracket

/-! ## Blanks at the ends -/

namespace Text

theorem all_isBlank_code {c : Char} (hc : R.known c) : (R.code c).all isBlank = isBlank c :=
  keeps_of_mem (fun _ hc => R.isBlank_code hc) c hc

theorem blank_recode {t : Text} (ht : R.Knows t) : blank (R.recode t) = blank t := by
  induction t with
  | nil => rfl
  | cons c t ih =>
    obtain ⟨hc, ht⟩ := R.knows_cons.mp ht
    have ih := ih ht
    rw [blank] at ih ⊢
    rw [recode_cons, List.all_append, all_isBlank_code hc, ih]
    rfl

theorem trimStart_recode {t : Text} (ht : R.Knows t) :
    trimStart (R.recode t) = R.recode (trimStart t) := by
  induction t with
  | nil => rfl
  | cons c t ih =>
    obtain ⟨hc, ht⟩ := R.knows_cons.mp ht
    have ih := ih ht
    have hk := R.isBlank_code hc
    rw [trimStart] at ih
    cases hb : isBlank c with
    | true =>
      have hall : ∀ d ∈ R.code c, isBlank d = true := fun d hd => (hk d hd).trans hb
      rw [recode_cons, trimStart, List.dropWhile_append_of_pos hall, ih, trimStart, trimStart,
        List.dropWhile_cons_of_pos hb]
    | false =>
      obtain ⟨d, w, hd, -⟩ := code_eq_cons hc
      have hdb : isBlank d = false := by rw [hk d (by simp [hd]), hb]
      simp [trimStart, hd, hdb, hb]

theorem trimEnd_recode {t : Text} (ht : R.Knows t) :
    trimEnd (R.recode t) = R.recode (trimEnd t) := by
  induction t using List.reverseRecOn with
  | nil => rfl
  | append_singleton t c ih =>
    obtain ⟨ht, hc⟩ := R.knows_append.mp ht
    have hc := (R.knows_cons.mp hc).1
    have ih := ih ht
    have hk := R.isBlank_code hc
    rw [R.recode_append, R.recode_cons, recode_nil, List.append_nil]
    cases hb : isBlank c with
    | true =>
      rw [trimEnd_append_of_isBlank fun d hd => (hk d hd).trans hb, ih,
        trimEnd_append_of_isBlank (by simpa using hb)]
    | false =>
      obtain ⟨d, w, hd, -⟩ := code_eq_cons hc
      rw [trimEnd_append_of_not_isBlank (by simp [hd]) fun e he => (hk e he).trans hb,
        trimEnd_append_of_not_isBlank (by simp) (by simpa using hb)]
      simp

theorem trim_recode {t : Text} (ht : R.Knows t) : trim (R.recode t) = R.recode (trim t) := by
  have hs : R.Knows (trimStart t) := fun c hc => ht c ((List.dropWhile_suffix _).subset hc)
  rw [trim, trimStart_recode ht, trimEnd_recode hs, trim]

end Text

/-! ## Recodings that spare the line ends -/

/-- Every character is known, line ends stay as they are, and no code brings a new one. -/
structure Recoding.SparesLineEnds (R : Recoding) : Prop where
  known : ∀ c, R.known c
  code_lineEnd : ∀ x ∈ ['\r', '\n'], R.code x = [x]
  notMem_code : ∀ x ∈ ['\r', '\n'], ∀ c, c ≠ x → x ∉ R.code c

namespace Text

section

variable (hR : R.SparesLineEnds)
include hR

theorem head_recode_eq_lineFeed_iff (t : Text) :
    (R.recode t).head? = some '\n' ↔ t.head? = some '\n' := by
  cases t with
  | nil => rfl
  | cons c t =>
    by_cases hc : c = '\n'
    · subst hc
      rw [recode_cons, hR.code_lineEnd _ (by simp)]
      simp
    · have hm := hR.notMem_code '\n' (by simp) c hc
      obtain ⟨d, w, hd, -⟩ := code_eq_cons (hR.known c)
      rw [hd, List.mem_cons, not_or] at hm
      simp [hd, hc, Ne.symm hm.1]

theorem unifyLineEnds_recode (t : Text) :
    unifyLineEnds (R.recode t) = R.recode (unifyLineEnds t) := by
  have hfeed : R.code '\n' = ['\n'] := hR.code_lineEnd _ (by simp)
  induction h : t.length using Nat.strong_induction_on generalizing t with
  | _ n ih =>
    subst h
    cases t with
    | nil => rfl
    | cons c t =>
      by_cases hc : c = '\r'
      · subst hc
        rw [recode_cons, hR.code_lineEnd '\r' (by simp), List.singleton_append,
          unifyLineEnds_return, unifyLineEnds_return]
        simp only [head_recode_eq_lineFeed_iff hR]
        cases t with
        | nil => simp [unifyLineEnds, hfeed]
        | cons d t =>
          by_cases hd : d = '\n'
          · subst hd
            have := ih t.length (by rw [List.length_cons, List.length_cons]; omega) t rfl
            simp [hfeed, this]
          · have := ih (d :: t).length (by simp) (d :: t) rfl
            simpa [hd, hfeed] using this
      · have := ih t.length (by simp) t rfl
        rw [recode_cons, unifyLineEnds_append (hR.notMem_code '\r' (by simp) c hc), this,
          unifyLineEnds_cons hc, recode_cons]

theorem limitLineFeeds_recode (seen : Nat) (t : Text) :
    limitLineFeeds seen (R.recode t) = R.recode (limitLineFeeds seen t) := by
  induction t generalizing seen with
  | nil => rfl
  | cons c t ih =>
    by_cases hc : c = '\n'
    · subst hc
      have hfeed : R.code '\n' = ['\n'] := hR.code_lineEnd _ (by simp)
      rw [recode_cons, hfeed, List.singleton_append, limitLineFeeds, limitLineFeeds, if_pos rfl,
        if_pos rfl]
      split
      · rw [recode_cons, hfeed, ih]
        rfl
      · rw [ih]
    · obtain ⟨d, w, hd, -⟩ := code_eq_cons (hR.known c)
      rw [recode_cons, limitLineFeeds_append (by simp [hd])
        (hR.notMem_code '\n' (by simp) c hc), ih, limitLineFeeds, if_neg hc, recode_cons]

theorem normalizeSpacing_recode (t : Text) :
    normalizeSpacing (R.recode t) = R.recode (normalizeSpacing t) := by
  rw [normalizeSpacing, unifyLineEnds_recode hR, limitLineFeeds_recode hR,
    trim_recode fun c _ => hR.known c, normalizeSpacing]

end

end Text

/-! ## Recodings that spare what the rules write -/

/-- The characters that the rules write: no private-use characters and no carriage returns. -/
def isWritten (c : Char) : Bool := !isPrivateUse c && c != '\r'

/-- Every character is known, and the quiet characters that the rules write stay as they are. -/
structure Recoding.SparesRules (R : Recoding) : Prop where
  known : ∀ c, R.known c
  code_markup : ∀ c ∈ "&<>\n".toList, R.code c = [c]

structure Recoding.SparesMarkup (R : Recoding) : Prop extends R.SparesRules, R.SparesLineEnds

variable (hR : R.SparesRules)

include hR

theorem Recoding.SparesRules.knows (t : Text) : R.Knows t := fun c _ => hR.known c

theorem fixes_literal {t : Text} (ht : ∀ c ∈ t, isWritten c = true) : R.Fixes t := by
  intro c hm
  cases hq : isQuiet c with
  | false => exact code_of_not_quiet hq
  | true =>
    refine hR.code_markup c ?_
    have hc := ht c hm
    simp only [isWritten, Bool.and_eq_true, Bool.not_eq_true', bne_iff_ne] at hc
    simpa [isQuiet, hc, or_assoc] using hq

theorem recode_literal {t : Text} (ht : ∀ c ∈ t, isWritten c = true) : R.recode t = t :=
  (fixes_literal hR ht).recode_eq

/-! ## Blocks -/

namespace Text

omit hR in
theorem intercalate_recode {sep : Text} (hs : R.recode sep = sep) (ts : List Text) :
    List.intercalate sep (ts.map R.recode) = R.recode (List.intercalate sep ts) := by
  induction ts with
  | nil => rfl
  | cons t ts ih =>
    cases ts with
    | nil => simp
    | cons u ts =>
      rw [List.map_cons] at ih
      rw [List.map_cons, List.map_cons, List.intercalate_cons_cons, ih,
        List.intercalate_cons_cons, R.recode_append, R.recode_append, hs]

omit hR in
theorem isQuiet_of_mem_ofNat {n : Nat} {c : Char} (hc : c ∈ ofNat n) : isQuiet c = false := by
  rw [← Bool.not_eq_true]
  intro hq
  have hd := Nat.isDigit_of_mem_toDigits (by decide) (by decide) hc
  simp only [Char.isDigit, Bool.and_eq_true, decide_eq_true_eq, UInt32.le_iff_toNat_le,
    ge_iff_le] at hd
  change 48 ≤ c.toNat ∧ c.toNat ≤ 57 at hd
  rw [isQuiet_iff] at hq
  omega

omit hR in
theorem isQuiet_of_mem_ofInt {n : Int} {c : Char} (hc : c ∈ ofInt n) : isQuiet c = false := by
  cases n with
  | ofNat n => exact isQuiet_of_mem_ofNat hc
  | negSucc n =>
    rcases List.mem_cons.mp hc with rfl | hc
    · rfl
    · exact isQuiet_of_mem_ofNat hc

omit hR in
theorem ofNat_recode (n : Nat) : R.recode (ofNat n) = ofNat n :=
  recode_of_not_quiet fun _ hc => isQuiet_of_mem_ofNat hc

end Text

namespace Bracket

theorem rewrite_content_recode {α β : Type} {p : Pattern (Span α β)}
    {f : α → α} {g : β → β} (h : Mirrors p p R (recodeSpan R f g)) (write : Text → Text)
    (hw : ∀ t, write (R.recode t) = R.recode (write t)) (t : Text) :
    p.rewrite (fun s => write s.content) (R.recode t) =
      R.recode (p.rewrite (fun s => write s.content) t) :=
  h.rewrite_recode (hR.knows t) fun s _ => hw s.content

theorem unwrap_recode {α β : Type} {p : Pattern (Span α β)} {f : α → α} {g : β → β}
    (h : Mirrors p p R (recodeSpan R f g)) (t : Text) :
    p.rewrite Span.content (R.recode t) = R.recode (p.rewrite Span.content t) :=
  rewrite_content_recode hR h id (fun _ => rfl) t

theorem listItems_recode (content : Text) :
    listItems (R.recode content) = (listItems content).map R.recode := by
  have hmark : Mirrors itemMark itemMark R id := mirrors_exact (by decide) (by decide)
  have hp : Mirrors paragraph paragraph R (recodeSpan R id id) := mirrors_paired (by decide)
  have hitem (t : Text) : paragraph.rewrite Span.content (Text.trim (R.recode t)) =
      R.recode (paragraph.rewrite Span.content (Text.trim t)) := by
    rw [Text.trim_recode (hR.knows _), unwrap_recode hR hp]
  rw [listItems, hmark.split_recode (hR.knows content), List.filter_map, List.map_map, listItems,
    List.map_map]
  simp only [Function.comp_def, Text.blank_recode (hR.knows _), hitem]

theorem numberFrom_recode (n : Nat) (items : List Text) :
    numberFrom n (items.map R.recode) = (numberFrom n items).map R.recode := by
  induction items generalizing n with
  | nil => rfl
  | cons item items ih =>
    simp only [List.map_cons, numberFrom, ih, R.recode_append, Text.ofNat_recode,
      recode_literal hR (t := ". ".toList) (by decide)]

theorem numberedLines_recode (content : Text) :
    numberedLines (R.recode content) = R.recode (numberedLines content) := by
  rw [numberedLines, listItems_recode hR, numberFrom_recode hR,
    Text.intercalate_recode (recode_literal hR (by decide)), numberedLines]

theorem bulletLines_recode (content : Text) :
    bulletLines (R.recode content) = R.recode (bulletLines content) := by
  have hmap : (listItems (R.recode content)).map (fun item => "• ".toList ++ item) =
      ((listItems content).map fun item => "• ".toList ++ item).map R.recode := by
    simp only [listItems_recode hR, List.map_map, Function.comp_def, R.recode_append,
      recode_literal hR (t := "• ".toList) (by decide)]
  rw [bulletLines, hmap, Text.intercalate_recode (recode_literal hR (by decide)), bulletLines]

theorem flattenBlocks_recode (t : Text) :
    flattenBlocks (R.recode t) = R.recode (flattenBlocks t) := by
  have hn : Mirrors numberedList numberedList R (recodeSpan R id id) :=
    Mirrors.between (mirrors_tag (by decide)) (mirrors_tag (by decide)) keeps_true
  have hb : Mirrors bulletList bulletList R (recodeSpan R id id) := mirrors_paired (by decide)
  have hp : Mirrors paragraph paragraph R (recodeSpan R id id) := mirrors_paired (by decide)
  have hline (u : Text) : R.recode u ++ ['\n'] = R.recode (u ++ ['\n']) := by
    rw [R.recode_append, recode_literal hR (t := ['\n']) (by decide)]
  simp only [flattenBlocks]
  rw [rewrite_content_recode hR hn _ (numberedLines_recode hR),
    rewrite_content_recode hR hb _ (bulletLines_recode hR),
    rewrite_content_recode hR hp (· ++ ['\n']) hline]

/-! ## Inline elements -/

theorem escapeDoubleQuotes_recode (t : Text) :
    Html.escapeDoubleQuotes (R.recode t) = R.recode (Html.escapeDoubleQuotes t) := by
  induction t with
  | nil => rfl
  | cons c t ih =>
    have hcode : Html.escapeDoubleQuotes (R.code c) = R.recode (Html.escapeQuote c) := by
      by_cases hc : c = '"'
      · subst hc
        rw [code_of_not_quiet (by decide), recode_literal hR (by decide)]
        rfl
      · rw [Html.escapeQuote_of_ne hc, Html.escapeDoubleQuotes_of_notMem
          (notMem_code (by decide) (by decide) (hR.known c) hc)]
        simp
    rw [recode_cons, Html.escapeDoubleQuotes_append, hcode, ih, Html.escapeDoubleQuotes_cons,
      R.recode_append]

theorem element_recode {name : Text} (hn : ∀ c ∈ name, isWritten c = true) (content : Text) :
    Html.element name (R.recode content) = R.recode (Html.element name content) := by
  simp only [Html.element, R.recode_append, R.recode_cons, recode_literal hR hn,
    hR.code_markup '<' (by decide), hR.code_markup '>' (by decide),
    code_of_not_quiet (R := R) (c := '/') (by decide)]
  simp

theorem anchorRaw_recode (target body : Text) :
    Html.anchorRaw (R.recode target) (R.recode body) = R.recode (Html.anchorRaw target body) := by
  have hopen : R.recode "<a href=\"".toList = "<a href=\"".toList :=
    recode_literal hR (by decide +kernel)
  have hmid : R.recode "\">".toList = "\">".toList := recode_literal hR (by decide +kernel)
  have hclose : R.recode "</a>".toList = "</a>".toList := recode_literal hR (by decide +kernel)
  unfold Html.anchorRaw
  rw [R.recode_append, R.recode_append, R.recode_append, R.recode_append, hopen, hmid, hclose]

theorem Style.render_recode (style : Style) (t : Text) :
    style.render (R.recode t) = R.recode (style.render t) := by
  have hp : Mirrors style.pattern style.pattern R (recodeSpan R id id) :=
    mirrors_paired (by cases style <;> decide)
  exact rewrite_content_recode hR hp _
    (element_recode hR (by cases style <;> decide)) t

theorem renderLinks_recode (t : Text) : renderLinks (R.recode t) = R.recode (renderLinks t) := by
  have ht : Mirrors targetedLink targetedLink R (recodeSpan R (recodeSpan R id id) id) :=
    mirrors_pairedWithValue (by decide)
  have hp : Mirrors plainLink plainLink R (recodeSpan R id id) := mirrors_paired (by decide)
  simp only [renderLinks]
  rw [ht.rewrite_recode (hR.knows t) fun e _ => ?_, hp.rewrite_recode (hR.knows _) fun e _ => ?_]
  · simp only [recodeSpan]
    rw [escapeDoubleQuotes_recode hR, anchorRaw_recode hR]
  · simp only [recodeSpan]
    rw [escapeDoubleQuotes_recode hR, anchorRaw_recode hR]

theorem renderInline_recode (t : Text) : renderInline (R.recode t) = R.recode (renderInline t) := by
  simp only [renderInline, List.foldl_cons, List.foldl_nil, Style.render_recode hR,
    renderLinks_recode hR]

theorem unwrapUnsupported_recode (t : Text) :
    unwrapUnsupported (R.recode t) = R.recode (unwrapUnsupported t) := by
  have hi : Mirrors (paired "IMG".toList) (paired "IMG".toList) R (recodeSpan R id id) :=
    mirrors_paired (by decide)
  have hc : Mirrors (pairedWithValue "COLOR".toList) (pairedWithValue "COLOR".toList) R
      (recodeSpan R (recodeSpan R id id) id) := mirrors_pairedWithValue (by decide)
  have hs : Mirrors (pairedWithValue "SIZE".toList) (pairedWithValue "SIZE".toList) R
      (recodeSpan R (recodeSpan R id id) id) := mirrors_pairedWithValue (by decide)
  simp only [unwrapUnsupported]
  rw [unwrap_recode hR hi, unwrap_recode hR hc, unwrap_recode hR hs]

theorem applyRules_recode (t : Text) : applyRules (R.recode t) = R.recode (applyRules t) := by
  rw [applyRules, flattenBlocks_recode hR, renderInline_recode hR, unwrapUnsupported_recode hR,
    applyRules]

omit hR in
/-- The passes after the escaping give the recoding of what they give for the text. -/
theorem finish_recode (hR : R.SparesMarkup) (t : Text) :
    finish (R.recode t) = R.recode (finish t) := by
  rw [finish_eq, applyRules_recode hR.toSparesRules,
    Text.normalizeSpacing_recode hR.toSparesLineEnds, finish_eq]

end Bracket

end TaskBulletin
