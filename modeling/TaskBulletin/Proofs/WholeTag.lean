import TaskBulletin.Proofs.Leftover
import TaskBulletin.Proofs.Torn

/-!
# Where the tags of links stay whole

A tag that opens a link stays whole as long as nothing is written into its target: as
long as each element and each link is found in text, and no value or body that becomes
a target has markup in it. The escaping of quotes does not help there, since by then
the body may hold generated tags. That is the exact condition for a result in which only
generated tags are markup, unless a dropped value takes markup with it.
-/

namespace TaskBulletin

open Text Pattern Html Place

namespace Bracket

/-- Markup is no blank, and no tag and no mark of a block holds any. -/
theorem foreign_markup : Foreign markup := ⟨by decide, by decide, by decide⟩

theorem only_markup_paired {name : Text}
    (hn : ∀ d ∈ markup, ∀ x ∈ name, Text.spells x d = false) {e : Span Text Text}
    (h : (paired name).Reads e) : only markup ((paired name).spelling e) = only markup e.content :=
  only_spelling_paired (by decide) hn h

theorem only_markup_pairedWithValue {name : Text}
    (hn : ∀ d ∈ markup, ∀ x ∈ name, Text.spells x d = false) {e : Span (Span Text Text) Text}
    (h : (pairedWithValue name).Reads e) :
    only markup ((pairedWithValue name).spelling e) =
      only markup (e.opener.content ++ e.content) := by
  rw [only_append]
  exact only_spelling_pairedWithValue (by decide) hn h

/-! ## Passes that write tags -/

section

variable {α : Type}

/-- Every match is found in text, and is good; `s` is where the pieces begin. -/
def InText (spelling : α → Text) (good : α → Prop) : Place → List (Piece α) → Prop
  | _, [] => True
  | s, .plain c :: ps => InText spelling good (s.next c) ps
  | s, .hit a :: ps => s = .text ∧ good a ∧ InText spelling good (s.run (spelling a)) ps

instance decidableInText (spelling : α → Text) (good : α → Prop) [DecidablePred good] :
    ∀ (s : Place) (ps : List (Piece α)), Decidable (InText spelling good s ps)
  | _, [] => isTrue trivial
  | s, .plain c :: ps => decidableInText spelling good (s.next c) ps
  | s, .hit a :: ps =>
    have := decidableInText spelling good (s.run (spelling a)) ps
    inferInstanceAs (Decidable (_ ∧ _ ∧ _))

/-- A replacement that begins with a tag, and that leads from text back to text exactly
for a good match. -/
structure Inserts (spelling f : α → Text) (good : α → Prop) (a : α) : Prop where
  lost : ∀ s ≠ Place.text, s.run (f a) = .lost
  of_good : good a → Place.text.run (f a) = .text ∧ Place.text.run (spelling a) = .text
  of_not_good : ¬ good a → Place.text.run (f a) = .lost

theorem run_writeWith_iff {spelling f : α → Text} {good : α → Prop} {ps : List (Piece α)}
    (h : ∀ a, .hit a ∈ ps → Inserts spelling f good a) (s : Place) :
    s.run (writeWith f ps) = .text ↔
      InText spelling good s ps ∧ s.run (writeWith spelling ps) = .text := by
  induction ps generalizing s with
  | nil => simp [writeWith, InText]
  | cons piece ps ih =>
    have ih := ih fun a ha => h a (List.mem_cons_of_mem _ ha)
    cases piece with
    | plain c => exact ih (s.next c)
    | hit a =>
      have ha := h a (List.mem_cons_self ..)
      rw [writeWith, writeWith, run_append, run_append, InText]
      by_cases hs : s = .text
      · subst hs
        by_cases hg : good a
        · obtain ⟨hf, hspelled⟩ := ha.of_good hg
          rw [hf, hspelled, ih]
          simp [hg]
        · rw [ha.of_not_good hg, run_lost]
          simp [hg]
      · rw [ha.lost s hs, run_lost]
        simp [hs]

theorem run_rewrite_iff {p : Pattern α} {f : α → Text} {good : α → Prop} {t : Text}
    (h : ∀ a ∈ p.hits t, Inserts p.spelling f good a) :
    Place.text.run (p.rewrite f t) = .text ↔
      InText p.spelling good .text (p.pieces t) ∧ Place.text.run t = .text := by
  have hr := run_writeWith_iff (fun a ha => h a (mem_hits_iff.mpr ha)) .text
  rw [p.writeWith_spelling_pieces t] at hr
  exact hr

end

theorem next_angle_of_ne {s : Place} (hs : s ≠ .text) : s.next '<' = .lost := by
  cases s with
  | text => exact absurd rfl hs
  | tag => rfl
  | target => rfl
  | closed => rfl
  | lost => rfl

theorem run_angle_of_ne {s : Place} (hs : s ≠ .text) (t : Text) : s.run ('<' :: t) = .lost := by
  rw [run_cons, next_angle_of_ne hs, run_lost]

theorem run_element (style : Style) (content : Text) :
    Place.text.run (element style.elementName content) =
      if Place.text.run content = .text then .text else .lost := by
  have hopen : Place.text.run ('<' :: style.elementName ++ ['>']) = .text := by
    cases style <;> decide
  have hclose : Place.text.run ('<' :: '/' :: style.elementName ++ ['>']) = .text := by
    cases style <;> decide
  have hlost : ∀ s ≠ Place.text, s.run ('<' :: '/' :: style.elementName ++ ['>']) = .lost :=
    fun s hs => run_angle_of_ne hs _
  have he : element style.elementName content =
      ('<' :: style.elementName ++ ['>']) ++
        (content ++ ('<' :: '/' :: style.elementName ++ ['>'])) := by
    simp [element]
  rw [he]
  generalize '<' :: style.elementName ++ ['>'] = o at hopen
  generalize '<' :: '/' :: style.elementName ++ ['>'] = e at hclose hlost
  rw [run_append, run_append, hopen]
  split
  · rename_i hc
    rw [hc, hclose]
  · rename_i hc
    exact hlost _ hc

theorem run_anchorRaw {target : Text} (hq : '"' ∉ target) (body : Text) :
    Place.text.run (anchorRaw target body) =
      if ('<' ∉ target ∧ '>' ∉ target) ∧ Place.text.run body = .text then .text else .lost := by
  have he : anchorRaw target body = linkStart ++ target ++ linkEnd ++ body ++ "</a>".toList := rfl
  have hstart : Place.text.run linkStart = .target := rfl
  have hend : Place.target.run linkEnd = .text := rfl
  have hclose : Place.text.run "</a>".toList = .text := rfl
  rw [he, run_append, run_append, run_append, run_append, hstart, run_target hq]
  by_cases ha : '<' ∈ target ∨ '>' ∈ target
  · rw [if_pos ha, if_neg (by tauto), run_lost, run_lost, run_lost]
  · rw [if_neg ha, hend]
    by_cases hb : Place.text.run body = .text
    · rw [hb, hclose, if_pos (by tauto)]
    · rw [if_neg (by tauto)]
      exact run_angle_of_ne hb _

/-! ## Matches of the inline passes -/

/-- Every element of a style begins in text and its content leads back to text. -/
def Style.StandsInText (style : Style) (t : Text) : Prop :=
  InText style.pattern.spelling (fun e => Place.text.run e.content = .text) .text
    (style.pattern.pieces t)

instance (style : Style) (t : Text) : Decidable (style.StandsInText t) :=
  inferInstanceAs (Decidable (InText ..))

theorem Style.run_render_iff (style : Style) (t : Text) :
    Place.text.run (style.render t) = .text ↔ style.StandsInText t ∧ Place.text.run t = .text := by
  apply run_rewrite_iff
  intro e he
  have hname : ∀ d ∈ markup, ∀ x ∈ style.tagName, Text.spells x d = false := by
    cases style <;> decide
  have hs : only markup (style.pattern.spelling e) = only markup e.content :=
    only_markup_paired hname (reads_of_mem_hits he)
  refine ⟨fun s hs => run_angle_of_ne hs _, fun hg => ⟨?_, ?_⟩, fun hg => ?_⟩
  · rw [run_element, if_pos hg]
  · rw [run_congr hs, hg]
  · rw [run_element, if_neg hg]

/-- Every link with a target begins in text, its target has no angle bracket, and its
body leads back to text. -/
def TargetedLinksWhole (t : Text) : Prop :=
  InText targetedLink.spelling
    (fun e => ('<' ∉ e.opener.content ∧ '>' ∉ e.opener.content) ∧
      Place.text.run e.content = .text) .text (targetedLink.pieces t)

instance (t : Text) : Decidable (TargetedLinksWhole t) :=
  inferInstanceAs (Decidable (InText ..))

/-- Every link without a target begins in text, and its body has no angle bracket. -/
def PlainLinksWhole (t : Text) : Prop :=
  InText plainLink.spelling (fun e => '<' ∉ e.content ∧ '>' ∉ e.content) .text (plainLink.pieces t)

instance (t : Text) : Decidable (PlainLinksWhole t) :=
  inferInstanceAs (Decidable (InText ..))

theorem run_text_of_notMem {t : Text} (hl : '<' ∉ t) (hg : '>' ∉ t) : Place.text.run t = .text :=
  run_text fun _ hc => ⟨fun he => hl (he ▸ hc), fun he => hg (he ▸ hc)⟩

theorem mem_escapeDoubleQuotes_iff {t : Text} {c : Char} (hc : c ∉ "&quot;\"".toList) :
    c ∈ escapeDoubleQuotes t ↔ c ∈ t := by
  constructor
  · intro h
    refine (mem_escapeDoubleQuotes h).resolve_right fun hm => hc ?_
    exact List.mem_append_left ['"'] hm
  · intro h
    have hq : c ≠ '"' := by
      rintro rfl
      exact hc (by decide)
    refine List.mem_flatMap.mpr ⟨c, h, ?_⟩
    rw [escapeQuote_of_ne hq]
    exact List.mem_singleton_self c

theorem run_anchorRaw_escaped (target body : Text) :
    Place.text.run (anchorRaw (escapeDoubleQuotes target) body) =
      if ('<' ∉ target ∧ '>' ∉ target) ∧ Place.text.run body = .text then .text else .lost := by
  have hl : '<' ∈ escapeDoubleQuotes target ↔ '<' ∈ target := mem_escapeDoubleQuotes_iff (by decide)
  have hg : '>' ∈ escapeDoubleQuotes target ↔ '>' ∈ target := mem_escapeDoubleQuotes_iff (by decide)
  simp only [run_anchorRaw (quote_notMem_escapeDoubleQuotes target), hl, hg]

theorem run_targetedLinks_iff (t : Text) :
    Place.text.run (targetedLink.rewrite
        (fun e => anchorRaw (escapeDoubleQuotes e.opener.content) e.content) t) = .text ↔
      TargetedLinksWhole t ∧ Place.text.run t = .text := by
  apply run_rewrite_iff
  intro e he
  have hs : only markup (targetedLink.spelling e) = only markup (e.opener.content ++ e.content) :=
    only_markup_pairedWithValue (by decide) (reads_of_mem_hits he)
  refine ⟨fun s hs => run_angle_of_ne hs _, fun hg => ⟨?_, ?_⟩, fun hg => ?_⟩
  · rw [run_anchorRaw_escaped, if_pos hg]
  · rw [run_congr hs, run_append, run_text_of_notMem hg.1.1 hg.1.2, hg.2]
  · rw [run_anchorRaw_escaped, if_neg hg]

theorem run_plainLinks_iff (t : Text) :
    Place.text.run (plainLink.rewrite
        (fun e => anchorRaw (escapeDoubleQuotes e.content) e.content) t) = .text ↔
      PlainLinksWhole t ∧ Place.text.run t = .text := by
  apply run_rewrite_iff
  intro e he
  have hs : only markup (plainLink.spelling e) = only markup e.content :=
    only_markup_paired (by decide) (reads_of_mem_hits he)
  refine ⟨fun s hs => run_angle_of_ne hs _, fun hg => ⟨?_, ?_⟩, fun hg => ?_⟩
  · rw [run_anchorRaw_escaped, if_pos ⟨hg, run_text_of_notMem hg.1 hg.2⟩]
  · rw [run_congr hs, run_text_of_notMem hg.1 hg.2]
  · rw [run_anchorRaw_escaped, if_neg fun h => hg h.1]

def StylesInText : List Style → Text → Prop
  | [], _ => True
  | style :: styles, t => style.StandsInText t ∧ StylesInText styles (style.render t)

instance decidableStylesInText : ∀ (styles : List Style) (t : Text),
    Decidable (StylesInText styles t)
  | [], _ => isTrue trivial
  | style :: styles, t =>
    have := decidableStylesInText styles (style.render t)
    inferInstanceAs (Decidable (_ ∧ _))

theorem run_styles_iff (styles : List Style) (t : Text) :
    Place.text.run (styles.foldl (fun t style => style.render t) t) = .text ↔
      StylesInText styles t ∧ Place.text.run t = .text := by
  induction styles generalizing t with
  | nil => simp [StylesInText]
  | cons style styles ih =>
    rw [List.foldl_cons, ih, style.run_render_iff, StylesInText]
    tauto

def beforeLinks (t : Text) : Text :=
  [Style.bold, .italic, .underline, .strike].foldl (fun t style => style.render t) t

/-- No pass writes a tag into the target of a link. -/
structure LinksWhole (t : Text) : Prop where
  before : StylesInText [.bold, .italic, .underline, .strike] t
  targeted : TargetedLinksWhole (beforeLinks t)
  plain : PlainLinksWhole (targetedLink.rewrite
    (fun e => anchorRaw (escapeDoubleQuotes e.opener.content) e.content) (beforeLinks t))
  after : StylesInText [.code, .quote] (renderLinks (beforeLinks t))

instance (t : Text) : Decidable (LinksWhole t) :=
  decidable_of_iff (StylesInText [.bold, .italic, .underline, .strike] t ∧
    TargetedLinksWhole (beforeLinks t) ∧
    PlainLinksWhole (targetedLink.rewrite
      (fun e => anchorRaw (escapeDoubleQuotes e.opener.content) e.content) (beforeLinks t)) ∧
    StylesInText [.code, .quote] (renderLinks (beforeLinks t)))
    ⟨fun ⟨hb, ht, hp, ha⟩ => ⟨hb, ht, hp, ha⟩, fun ⟨hb, ht, hp, ha⟩ => ⟨hb, ht, hp, ha⟩⟩

/-- Links are whole after formatting and links if they were, and no pass tore one. -/
theorem run_renderInline_iff (t : Text) :
    Place.text.run (renderInline t) = .text ↔ LinksWhole t ∧ Place.text.run t = .text := by
  have hlinks : Place.text.run (renderLinks (beforeLinks t)) = .text ↔ _ :=
    run_plainLinks_iff _
  change Place.text.run ([Style.code, .quote].foldl (fun t style => style.render t)
    (renderLinks (beforeLinks t))) = .text ↔ _
  rw [run_styles_iff, hlinks, run_targetedLinks_iff, beforeLinks, run_styles_iff]
  constructor
  · rintro ⟨hafter, hplain, htargeted, hbefore, ht⟩
    exact ⟨⟨hbefore, htargeted, hplain, hafter⟩, ht⟩
  · rintro ⟨⟨hbefore, htargeted, hplain, hafter⟩, ht⟩
    exact ⟨hafter, hplain, htargeted, hbefore, ht⟩

/-! ## Values that are dropped -/

theorem run_torn_ne_tag {t : Text} (h : Torn t) {s : Place} (hs : s ≠ .tag) : s.run t ≠ .tag := by
  have hlonger : ∀ w ∈ tornParts, ∀ s ∈ [Place.text, .target, .closed, .lost], s.run w ≠ .tag := by
    decide
  induction h generalizing s with
  | nil => exact hs
  | @append w t hw _ ih =>
    rw [run_append]
    refine ih ?_
    cases hw with
    | @char c hc =>
      rw [run_cons, run_nil]
      intro he
      unfold next at he
      split at he <;> simp_all
    | longer hw =>
      refine hlonger w hw s ?_
      cases s <;> simp_all

/-- Without angle brackets or double quotes a value leads nowhere, except in a tag and
after a target. -/
theorem run_value {v : Text} (hv : ∀ c ∈ v, c ≠ '<' ∧ c ≠ '>' ∧ c ≠ '"') {s : Place}
    (ht : s ≠ .tag) (hc : s ≠ .closed) : s.run v = s := by
  have hl : '<' ∉ v := fun hm => (hv _ hm).1 rfl
  have hg : '>' ∉ v := fun hm => (hv _ hm).2.1 rfl
  have hq : '"' ∉ v := fun hm => (hv _ hm).2.2 rfl
  cases s with
  | text => exact run_text_of_notMem hl hg
  | tag => exact absurd rfl ht
  | target => rw [run_target hq, if_neg (by simp [hl, hg])]
  | closed => exact absurd rfl hc
  | lost => exact run_lost v

/-- A match whose value can be dropped. -/
structure Droppable (p : Pattern (Span (Span Text Text) Text)) (e : Span (Span Text Text) Text) :
    Prop where
  seamed : ∃ c m d, Seam (Part (· ∈ tornParts)) c ∧ Seam (Part (· ∈ tornParts)) d ∧
    p.spelling e = c :: (m ++ [d])
  only_markup_eq : only markup (p.spelling e) = only markup (e.opener.content ++ e.content)
  torn_content : Torn (p.spelling e) → Torn e.content
  plain_value : ∀ c ∈ e.opener.content, c ≠ '<' ∧ c ≠ '>' ∧ c ≠ '"'

theorem run_drop_iff {p : Pattern (Span (Span Text Text) Text)}
    {ps : List (Piece (Span (Span Text Text) Text))} (h : ∀ e, .hit e ∈ ps → Droppable p e)
    (ht : Torn (writeWith p.spelling ps)) {s : Place} (hs : s ≠ .tag) :
    s.run (writeWith Span.content ps) = .text ↔ s.run (writeWith p.spelling ps) = .text := by
  induction ps using pieces_induction generalizing s with
  | run w => rw [writeWith_map_plain, writeWith_map_plain]
  | hit w e ps ih =>
    have he := h e (by simp)
    have hps : ∀ e, .hit e ∈ ps → Droppable p e := fun e he =>
      h e (List.mem_append_right _ (List.mem_cons_of_mem _ he))
    simp only [writeWith_append, writeWith_map_plain, writeWith, run_append] at ht ⊢
    obtain ⟨hw, hspelled, hrest⟩ := MadeOf.cut_spelling he.seamed ht
    have hcontent := he.torn_content hspelled
    have hnt := run_torn_ne_tag hw hs
    by_cases hc : s.run w = .closed
    · -- Neither torn text comes back to text from here.
      have hdropped : Torn (e.content ++ writeWith Span.content ps) :=
        hcontent.concat (hrest.writeWith (fun e he => (hps e he).seamed)
          fun e he => (hps e he).torn_content)
      have h1 := run_closed_torn hdropped
      have h2 := run_closed_torn (hspelled.concat hrest)
      rw [run_append] at h1 h2
      rw [hc]
      exact iff_of_false h1 h2
    · rw [run_congr he.only_markup_eq, run_append, run_value he.plain_value hnt hc]
      exact ih hps hrest (run_torn_ne_tag hcontent hnt)

theorem run_dropValues_iff {name : Text}
    (hn : ∀ d ∈ "&;<>\"".toList, ∀ x ∈ name, Text.spells x d = false) {t : Text} (ht : Torn t)
    (hv : ∀ e ∈ (pairedWithValue name).hits t, ∀ c ∈ e.opener.content, c ≠ '<' ∧
      c ≠ '>' ∧ c ≠ '"') :
    Place.text.run ((pairedWithValue name).rewrite Span.content t) = .text ↔
      Place.text.run t = .text := by
  have hname : ∀ d ∈ markup, ∀ x ∈ name, Text.spells x d = false := by
    have hsub : ∀ d ∈ markup, d ∈ "&;<>\"".toList := by decide
    exact fun d hd => hn d (hsub d hd)
  have hdrop : ∀ e, .hit e ∈ (pairedWithValue name).pieces t →
      Droppable (pairedWithValue name) e := by
    intro e he
    have hr := reads_of_mem_pieces he
    exact ⟨seamed_pairedWithValue name e hr, only_markup_pairedWithValue hname hr,
      fun h => (torn_valueAndContent hn hr h).2, hv e (mem_hits_iff.mpr he)⟩
  have ht' := ht
  rw [← (pairedWithValue name).writeWith_spelling_pieces t] at ht'
  have hr := run_drop_iff hdrop ht' (s := .text) (by decide)
  rw [(pairedWithValue name).writeWith_spelling_pieces t] at hr
  exact hr

/-- No value that is dropped has an angle bracket or a double quote in it. -/
def PlainDroppedValues (t : Text) : Prop :=
  ∀ v ∈ droppedValues t, ∀ c ∈ v, c ≠ '<' ∧ c ≠ '>' ∧ c ≠ '"'

instance (t : Text) : Decidable (PlainDroppedValues t) :=
  inferInstanceAs (Decidable (∀ v ∈ _, ∀ c ∈ v, _))

theorem run_unwrapUnsupported_iff {t : Text} (ht : Torn t) (hv : PlainDroppedValues t) :
    Place.text.run (unwrapUnsupported t) = .text ↔ Place.text.run t = .text := by
  have himage : Torn ((paired "IMG".toList).rewrite Span.content t) :=
    torn_rewrite_paired (fun _ hc => hc) ht
  have hmarkup : only markup ((paired "IMG".toList).rewrite Span.content t) = only markup t :=
    only_rewrite_paired (by decide) (by decide) (fun _ => rfl) t
  have hcolor : Torn ((pairedWithValue "COLOR".toList).rewrite Span.content
      ((paired "IMG".toList).rewrite Span.content t)) :=
    torn_rewrite_pairedWithValue (by decide) (fun _ _ hc => hc) himage
  unfold unwrapUnsupported
  rw [run_dropValues_iff (by decide) hcolor fun e he => hv _ ?_,
    run_dropValues_iff (by decide) himage fun e he => hv _ ?_, run_congr hmarkup]
  · exact List.mem_append_left _ (List.mem_map_of_mem he)
  · exact List.mem_append_right _ (List.mem_map_of_mem he)

/-! ## The whole conversion -/

section

variable {file : Int → Except Text (Option DiskFile)} {user : Int → Except Text Text}

/-- What is left of a body is always text, tags without attributes, and halves of link
tags. Only generated tags are markup in it exactly if a reader gets back to text; with no
markup in dropped values that is so exactly if no pass writes into the target of a link. -/
theorem convert_generated_iff (hfile : ∀ id f, file id = .ok (some f) → '\x00' ∉ f.url)
    (huser : ∀ id link, user id = .ok link → link = [] ∨ link = Text.ofInt id) {source : Text}
    {r : Resolution} (hr : resolve source = .ok r) :
    ∃ html log, convert (.recording file user) source .empty = .ok (html, log) ∧ Torn html ∧
      (Generated html ↔ Place.text.run
        (unwrapUnsupported (renderInline (flattenBlocks (r.restored file user)))) = .text) ∧
      (PlainDroppedValues (renderInline (flattenBlocks (r.restored file user))) →
        (Generated html ↔ LinksWhole (flattenBlocks (r.restored file user)))) := by
  refine ⟨finish (r.restored file user), _, by rw [convert_recording, hr]; rfl, ?_⟩
  have hrestored := anchored_restored hfile huser r
  have hblocks := torn_flattenBlocks hrestored.torn
  have htorn := torn_finish hrestored.torn
  have hwhole : Place.text.run (flattenBlocks (r.restored file user)) = .text := by
    rw [run_congr (only_flattenBlocks foreign_markup _)]
    exact hrestored.run
  have hread : Generated (finish (r.restored file user)) ↔ Place.text.run
      (unwrapUnsupported (renderInline (flattenBlocks (r.restored file user)))) = .text := by
    rw [generated_iff_run htorn, finish,
      run_congr (only_normalizeSpacing foreign_markup.blank _)]
  refine ⟨htorn, hread, fun hv => ?_⟩
  rw [hread, run_unwrapUnsupported_iff (torn_renderInline hblocks) hv, run_renderInline_iff]
  exact and_iff_left hwhole

end

/-- Bold text in a link, and a file whose name and address need escaping. -/
theorem convert_boldLinkAndFile_generated :
    ∃ html log,
      convert (.recording (fun id => .ok (some ⟨id, "a<b".toList, "v\"w".toList⟩)) knowNobody)
        "[URL=u][B]x[/B][/URL][DISK FILE ID=n5]".toList .empty = .ok (html, log) ∧
      Torn html ∧ Generated html := by
  let file : Int → Except Text (Option DiskFile) :=
    fun id => .ok (some ⟨id, "a<b".toList, "v\"w".toList⟩)
  let tags : Stash :=
    ⟨"TAG".toList, ["[URL=u]".toList, "[B]".toList, "[/B]".toList, "[/URL]".toList]⟩
  let r : Resolution :=
    ⟨tags, [(⟨"[DISK FILE ID=".toList, "n5".toList, [']']⟩, some 5)], [],
      "\x00TAG0\x00\x00TAG1\x00x\x00TAG2\x00\x00TAG3\x00\x00HTML0\x00".toList⟩
  have hr : resolve "[URL=u][B]x[/B][/URL][DISK FILE ID=n5]".toList = .ok r := by decide +kernel
  have hfile : ∀ id f, file id = .ok (some f) → '\x00' ∉ f.url := by
    intro id f hf
    have hurl : '\x00' ∉ "v\"w".toList := by decide
    obtain rfl := Option.some.inj (Except.ok.inj hf)
    exact hurl
  have huser : ∀ id link, knowNobody id = .ok link → link = [] ∨ link = Text.ofInt id :=
    fun id link h => .inr (eq_ofInt_of_knowNobody h)
  obtain ⟨html, log, hconvert, htorn, -, hiff⟩ := convert_generated_iff hfile huser hr
  have hvalues :
      PlainDroppedValues (renderInline (flattenBlocks (r.restored file knowNobody))) := by
    decide +kernel
  have hlinks : LinksWhole (flattenBlocks (r.restored file knowNobody)) := by decide +kernel
  exact ⟨html, log, hconvert, htorn, (hiff hvalues).mpr hlinks⟩

/-- A link that points to its own body gets the body's tags into its target. -/
theorem convert_linkOfBold_not_generated :
    '\x00' ∉ "[URL][B]x[/B][/URL]".toList ∧
      ∃ html log, convert (.recording findNothing knowNobody) "[URL][B]x[/B][/URL]".toList .empty =
        .ok (html, log) ∧ ¬ Generated html := by
  refine ⟨by decide, "<a href=\"<b>x</b>\"><b>x</b></a>".toList, .empty, by decide +kernel, ?_⟩
  intro h
  have hr := run_generated h
  revert hr
  decide

end Bracket

end TaskBulletin
