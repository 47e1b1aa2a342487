import TaskBulletin.Body
import TaskBulletin.Proofs.Excerpt
import TaskBulletin.Proofs.Kept
import TaskBulletin.Proofs.Numerals
import TaskBulletin.Proofs.OpenPasses

/-!
# What a rendered body shows

A body is shown if a visible token of it is not blank. The dash stands for a body that is
converted to nothing, not for one that is converted to tags around nothing. A body that is
cut shows its ellipsis, unless an angle bracket that opens on nothing takes the ellipsis into
a tag. What stands in the open in a body is shown, or the ellipsis in its place.
-/

namespace TaskBulletin

open Text Pattern

namespace Html

/-- A visible token of the text is not blank. -/
def Shows (t : Text) : Prop := ∃ token ∈ tokens (stripTags t), blank token = false

instance decidableShows (t : Text) : Decidable (Shows t) :=
  inferInstanceAs (Decidable (∃ token ∈ tokens (stripTags t), blank token = false))

theorem shows_iff {t : Text} : Shows t ↔ ∃ c ∈ stripTags t, isBlank c = false := by
  constructor
  · rintro ⟨token, htoken, hblank⟩
    obtain ⟨c, hc, hsolid⟩ := List.all_eq_false.mp hblank
    refine ⟨c, ?_, by simpa using hsolid⟩
    rw [← flatten_tokens (stripTags t)]
    exact List.mem_flatten_of_mem htoken hc
  · rintro ⟨c, hc, hsolid⟩
    rw [← flatten_tokens (stripTags t)] at hc
    obtain ⟨token, htoken, hc⟩ := List.mem_flatten.mp hc
    exact ⟨token, htoken, List.all_eq_false.mpr ⟨c, hc, by simp [hsolid]⟩⟩

/-! ## Characters outside tags -/

/-- A character in front of which no angle bracket is open is in no tag. -/
theorem mem_plainText_of_outside {ps : List (Piece (Span Text Text))}
    (hread : ∀ s, .hit s ∈ ps → tag.Reads s) {u : Text} {c : Char} {v : Text} (hc : Solid c)
    (h : writeWith tag.spelling ps = u ++ c :: v) {b : Bool} (hu : inside '<' '>' b u = false) :
    c ∈ plainText ps := by
  induction ps generalizing u b with
  | nil =>
    rw [writeWith] at h
    simp at h
  | cons piece ps ih =>
    have ih := @ih fun s hs => hread s (List.mem_cons_of_mem _ hs)
    cases piece with
    | plain d =>
      rw [writeWith] at h
      rw [plainText_plain]
      cases u with
      | nil =>
        rw [← (List.cons.inj h).1]
        exact List.mem_cons_self ..
      | cons e u =>
        obtain ⟨-, h⟩ := List.cons.inj h
        exact List.mem_cons_of_mem _ (ih h hu)
    | hit s =>
      rw [writeWith] at h
      rw [plainText_hit]
      have hspelled := spelling_tag_eq (hread s (List.mem_cons_self ..))
      have hcontent : '>' ∉ s.content := by
        obtain ⟨t, rest, hr⟩ := hread s (List.mem_cons_self ..)
        obtain ⟨-, -, -, hallowed, -⟩ := read_tag_eq_some_iff.mp hr
        intro hm
        exact absurd (hallowed _ hm) (by decide)
      rcases List.append_eq_append_iff.mp h with ⟨z, rfl, hz⟩ | ⟨z, hs, hz⟩
      · rw [inside_append] at hu
        exact ih hz hu
      · cases z with
        | nil => exact ih (u := []) (b := false) hz.symm rfl
        | cons d z =>
          -- The character would stand in the tag, behind its angle bracket.
          obtain ⟨rfl, -⟩ := List.cons.inj hz
          rw [hspelled] at hs
          rw [inside_of_delimited hcontent (hc.ne (by decide)) (hc.ne (by decide)) hs] at hu
          cases hu

/-! ## The ellipsis -/

/-- A tag begins at an angle bracket in front of the cut and takes the ellipsis, and all that is
shown stands in front of that bracket. -/
structure Cut.TakesEllipsis {t : Text} (cut : Cut t) (earlier later : List (Piece (Span Text Text)))
    (after : Text) : Prop where
  pieces_eq : tag.pieces t = earlier ++ .plain '<' :: later
  kept_eq : cut.kept = writeWith tag.spelling earlier ++ '<' :: after
  not_closed : '>' ∉ after
  opened_ne_nil : cut.opened ≠ []
  stripTags_eq : stripTags (Text.trimEnd cut.kept ++ cut.ending) = plainText earlier

theorem Cut.opened_ne_nil_of_mem {t : Text} (cut : Cut t) (hm : '>' ∈ cut.ending) :
    cut.opened ≠ [] := by
  intro hopened
  rw [Cut.ending, hopened] at hm
  exact absurd hm (by decide)

theorem Cut.shows_or_takesEllipsis {t : Text} (cut : Cut t) :
    Shows (Text.trimEnd cut.kept ++ cut.ending) ∨
      ∃ earlier later after, cut.TakesEllipsis earlier later after := by
  obtain ⟨front, blanks, hbefore, hblank, htrim, rest, hpieces⟩ := cut.exists_front
  rcases pieces_append_or_straddle selfDelimiting_tag hpieces cut.ending with h | ⟨s, h⟩
  · refine .inl (shows_iff.mpr ⟨ellipsis, ?_, by decide⟩)
    change ellipsis ∈ plainText (tag.pieces _)
    rw [htrim, h, plainText_append, pieces_ending, plainText_plain]
    exact List.mem_append_right _ (List.mem_cons_self ..)
  · obtain ⟨hfirst, hrest⟩ := cut.pieces_rest_of_straddle h
    obtain ⟨-, w, hw, hending⟩ := exists_tag_ending h
    have hfront : front = s.earlier ++ .plain '<' :: s.later := by rw [h.front_eq, hfirst]
    refine .inr ⟨s.earlier, s.later ++ rest, writeWith tag.spelling s.later ++ blanks,
      ?_, ?_, ?_, ?_, ?_⟩
    · rw [hpieces, hfront, List.append_assoc]
      rfl
    · rw [Cut.kept, hbefore, hfront, writeWith_append, writeWith_append, writeWith_map_plain,
        writeWith, List.append_assoc]
      rfl
    · intro hm
      rcases List.mem_append.mp hm with hm | hm
      · exact absurd (hw _ (List.mem_append_left _ hm)) (by decide)
      · exact absurd (hblank _ hm) (by decide)
    · apply cut.opened_ne_nil_of_mem
      rw [hending]
      exact List.mem_append_right _ (List.mem_cons_self ..)
    · change plainText (tag.pieces _) = _
      rw [htrim, h.pieces_eq, plainText_append, plainText_hit, hrest, List.append_nil]

/-- In what is kept of a text an angle bracket opens on nothing, within an element that is open at
the cut, and nothing is shown in front of it. -/
def Swallowed (n : Int) (t : Text) : Prop :=
  ∃ before after, (keep n.toNat [] (items t)).text = before ++ '<' :: after ∧ '>' ∉ after ∧
    ¬ Shows before ∧ (keep n.toNat [] (items t)).cutInside ≠ some []

/-- A text that is cut shows its ellipsis, if that is not swallowed, or what stands in front of the
tag that swallows it. -/
theorem shows_excerpt_of_cut {n : Int} {t : Text} (hn : 1 ≤ n) (hlong : n < visibleSize t)
    (h : ¬ Swallowed n t) : Shows (excerpt n t) := by
  obtain ⟨cut, -, -, hkeep, he⟩ := exists_excerpt_eq hn hlong
  rw [he]
  rcases cut.shows_or_takesEllipsis with hshows | ⟨earlier, later, after, htaken⟩
  · exact hshows
  · have hbefore : stripTags (writeWith tag.spelling earlier) = plainText earlier := by
      have hagain := pieces_prefix selfDelimiting_tag htaken.pieces_eq
      change plainText (tag.pieces _) = _
      rw [hagain]
    by_contra hnot
    refine h ⟨writeWith tag.spelling earlier, after, ?_, htaken.not_closed, ?_, ?_⟩
    · rw [hkeep]
      exact htaken.kept_eq
    · rwa [Shows, hbefore, ← htaken.stripTags_eq]
    · rw [hkeep]
      exact fun hsome => htaken.opened_ne_nil (Option.some.inj hsome)

end Html

/-! ## What stands in the open is shown -/

namespace Text

/-- Characters, and opening angle brackets with a character they open on. -/
inductive Guarded : Text → Prop
  | char {c : Char} : c ≠ '<' → Guarded [c]
  | angle {d : Char} : Solid d → Guarded ['<', d]

theorem Atom.guarded {w : Text} (h : Atom w) : MadeOf Guarded w := by
  cases h with
  | char _ hangle => exact .of_part (.char hangle)
  | @tag body hbody =>
    refine .of_forall fun d hd => .char ?_
    rintro rfl
    have hmem : '<' ∈ body := by simpa using hd
    exact hbody _ hmem (by decide)
  | angle hd => exact .of_part (.angle hd)

theorem Guarded.angle_notMem_tail {w : Text} (h : Guarded w) : '<' ∉ w.tail := by
  cases h with
  | char _ => exact List.not_mem_nil
  | angle hd => exact fun hm => hd.ne (by decide) (List.mem_singleton.mp hm).symm

theorem MadeOf.exists_solid {u v : Text} (h : MadeOf Guarded (u ++ '<' :: v)) :
    ∃ d w, v = d :: w ∧ Solid d := by
  obtain ⟨w, t, hpart, rfl, -, -⟩ := h.cut_head fun _ hw => hw.angle_notMem_tail
  cases hpart with
  | char hne => exact absurd rfl hne
  | @angle d hd => exact ⟨d, t, rfl, hd⟩

theorem seam_of_isBlank {c : Char} (hc : isBlank c = true) : Seam Guarded c where
  part := .char fun he => by
    rw [he] at hc
    cases hc
  eq_of_mem w hw hm := by
    cases hw with
    | char _ => rw [List.mem_singleton.mp hm]
    | @angle d hd =>
      exfalso
      rcases List.mem_cons.mp hm with rfl | hm
      · cases hc
      · rw [List.mem_singleton.mp hm, hd.not_blank] at hc
        cases hc

theorem MadeOf.guarded_normalizeSpacing {t : Text} (h : MadeOf Guarded t) :
    MadeOf Guarded (Text.normalizeSpacing t) := by
  refine h.normalizeSpacing (fun c hc w hw hends => ?_) (seam_of_isBlank (by decide))
    (seam_of_isBlank (by decide))
  refine (seam_of_isBlank hc).eq_of_mem w hw ?_
  rcases hends with he | he
  · exact List.mem_of_mem_head? he
  · exact List.mem_of_mem_getLast? he

/-! ### Spacing -/

theorem inside_only {o c : Char} (b : Bool) (t : Text) :
    inside o c b (only [o, c] t) = inside o c b t := by
  induction t generalizing b with
  | nil => rfl
  | cons d t ih =>
    by_cases hd : d ∈ [o, c]
    · rw [only_cons, if_pos (List.contains_iff_mem.mpr hd), inside_cons, inside_cons, ih]
    · rw [only_cons_of_notMem hd, inside_cons, ih]
      simp only [List.mem_cons, List.not_mem_nil, or_false, not_or] at hd
      rw [if_neg hd.1, if_neg hd.2]

/-- A character that is no blank stays where it is among the brackets. -/
theorem exists_normalizeSpacing_eq {c : Char} (hc : isBlank c = false) (u v : Text) :
    ∃ u' v', normalizeSpacing (u ++ c :: v) = u' ++ c :: v' ∧
      ∀ b, inside '<' '>' b u' = inside '<' '>' b u := by
  refine ⟨trimStart (evenLines u), trimEnd (evenLines v), ?_, fun b => ?_⟩
  · rw [normalizeSpacing, ← evenLines, evenLines_append_cons hc, trim, trimStart_append_cons hc,
      trimEnd_append_cons hc]
  · have hangles : ∀ d ∈ ['<', '>'], isBlank d = false := by decide
    have honly : only ['<', '>'] (trimStart (evenLines u)) = only ['<', '>'] u := by
      rw [trimStart, only_dropWhile_isBlank hangles, evenLines, only_limitLineFeeds hangles,
        only_unifyLineEnds hangles]
    rw [← inside_only, honly, inside_only]

/-- A solid character of the text stands in no tag. -/
def HasOpen (t : Text) : Prop :=
  MadeOf Atom t ∧ ∃ u c v, t = u ++ c :: v ∧ Solid c ∧ inside '[' ']' false u = false ∧
    inside '<' '>' false u = false

end Text

namespace Html

/-- Where an angle bracket begins no tag though it opens on something, no closing one follows. -/
theorem closing_notMem_of_pieces {t : Text} {earlier later : List (Piece (Span Text Text))}
    {d : Char} {w : Text} (hpieces : tag.pieces t = earlier ++ .plain '<' :: later)
    (hlater : writeWith tag.spelling later = d :: w) (hd : d ≠ '>') : '>' ∉ d :: w := by
  intro hm
  obtain ⟨content, rest, hsplit, hfirst⟩ := List.eq_append_cons_of_mem hm
  have hne : content ≠ [] := by
    rintro rfl
    exact hd (List.cons.inj hsplit).1
  have hread : tag.read ('<' :: (d :: w)) = some (⟨['<'], content, ['>']⟩, rest) := by
    refine read_tag_eq_some_iff.mpr ⟨rfl, rfl, hne, fun e he => ?_, by rw [hsplit]⟩
    rw [bne_iff_ne]
    rintro rfl
    exact hfirst he
  obtain ⟨cs, htext, hnone, -⟩ := pieces_eq_plain_cons (pieces_suffix hpieces)
  rw [writeWith, hlater] at htext
  obtain ⟨-, rfl⟩ := List.cons.inj htext
  rw [hread] at hnone
  cases hnone

section

variable {u v : Text} {c : Char}

/-- What stands in no tag stands in front of the tag that takes the ellipsis. -/
theorem Cut.TakesEllipsis.mem_plainText {cut : Cut (u ++ c :: v)}
    {earlier later : List (Piece (Span Text Text))} {after : Text}
    (h : cut.TakesEllipsis earlier later after) (hguarded : MadeOf Guarded (u ++ c :: v))
    (hc : Solid c) (hu : inside '<' '>' false u = false) : c ∈ plainText earlier := by
  have hangle : c ≠ '<' := hc.ne (by decide)
  have htext : writeWith tag.spelling earlier ++ '<' :: writeWith tag.spelling later =
      u ++ c :: v := by
    rw [← tag.writeWith_spelling_pieces (u ++ c :: v), h.pieces_eq, writeWith_append]
    rfl
  rcases List.append_eq_append_iff.mp htext with ⟨x, hx, hx'⟩ | ⟨x, hx, hx'⟩
  · -- Behind the angle bracket a closing one would stand in front of the character.
    cases x with
    | nil => exact absurd (List.cons.inj hx').1.symm hangle
    | cons e x =>
      rw [List.cons_append] at hx'
      obtain ⟨rfl, hlater⟩ := List.cons.inj hx'
      rw [← htext] at hguarded
      obtain ⟨d, w, hw, hd⟩ := hguarded.exists_solid
      have hclosing := closing_notMem_of_pieces h.pieces_eq hw (hd.ne (by decide))
      rw [hx, inside_append, inside_cons, if_pos rfl] at hu
      rw [← hw, hlater] at hclosing
      exact absurd (List.mem_append_left _ (closing_mem_of_inside hu)) hclosing
  · cases x with
    | nil => exact absurd (List.cons.inj hx').1 hangle
    | cons e x =>
      obtain ⟨rfl, -⟩ := List.cons.inj hx'
      refine mem_plainText_of_outside (fun s hs => reads_of_mem_pieces (t := u ++ c :: v) ?_)
        hc hx hu
      rw [h.pieces_eq]
      exact List.mem_append_left _ hs

theorem shows_excerpt_of_outside {n : Int} (hn : 1 ≤ n) (hguarded : MadeOf Guarded (u ++ c :: v))
    (hc : Solid c) (hu : inside '<' '>' false u = false) : Shows (excerpt n (u ++ c :: v)) := by
  by_cases hfits : visibleSize (u ++ c :: v) ≤ n
  · have hshown : c ∈ stripTags (u ++ c :: v) :=
      mem_plainText_of_outside (fun _ hs => reads_of_mem_pieces hs) hc
        (tag.writeWith_spelling_pieces _) hu
    rw [excerpt, if_neg (by omega), if_pos hfits]
    exact shows_iff.mpr ⟨c, hshown, hc.not_blank⟩
  · obtain ⟨cut, -, -, -, he⟩ := exists_excerpt_eq hn (not_le.mp hfits)
    rw [he]
    rcases cut.shows_or_takesEllipsis with hshows | ⟨earlier, later, after, htaken⟩
    · exact hshows
    · refine shows_iff.mpr ⟨c, ?_, hc.not_blank⟩
      rw [htaken.stripTags_eq]
      exact htaken.mem_plainText hguarded hc hu

end

end Html

namespace Bracket

/-- The escaped body with what its references came to, in front of the rules. -/
def filledBody {σ : Type} (sv : Services σ) (source : Text) (s : σ) : Text :=
  let r := resolution source
  let files := sv.askFiles r.files s
  r.filled files.1 (sv.askUsers r.mentions files.2).1

theorem exists_convert_eq {σ : Type} (sv : Services σ) {source : Text} (h : ReadableIds source)
    (s : σ) : ∃ s', convert sv source s = .ok (finish (filledBody sv source s), s') := by
  rw [convert_eq_filled, resolve_of_readable h]
  exact ⟨_, rfl⟩

/-- What stands in the open in a body stands in no tag of what it is converted to. -/
theorem shows_excerpt_finish {n : Int} (hn : 1 ≤ n) {t : Text} (h : Text.HasOpen t) :
    Html.Shows (Html.excerpt n (finish t)) := by
  obtain ⟨hatoms, u, c, v, ht, hc, hsquare, hangle⟩ := h
  have hretains := retains_applyRules hatoms
  obtain ⟨u', v', hrules, -, hle⟩ := hretains.stays u c v ht hc hsquare
  have hu' : Text.inside '<' '>' false u' = false := by
    by_contra hinside
    rw [hle false (by simpa using hinside)] at hangle
    cases hangle
  have hguarded : Text.MadeOf Text.Guarded (applyRules t) :=
    hretains.after.expand fun _ hw => hw.guarded
  have hspaced := hguarded.guarded_normalizeSpacing
  obtain ⟨u'', v'', hfinished, hinside⟩ := Text.exists_normalizeSpacing_eq hc.not_blank u' v'
  rw [hrules, hfinished] at hspaced
  rw [finish_eq, hrules, hfinished]
  exact Html.shows_excerpt_of_outside hn hspaced hc ((hinside false).trans hu')

end Bracket

theorem shows_or_dash {t : Text} :
    Html.Shows (if t.isEmpty then dash else t) ↔ t = [] ∨ Html.Shows t := by
  have hdash : Html.Shows dash := by decide +kernel
  cases t with
  | nil => exact ⟨fun _ => .inl rfl, fun _ => hdash⟩
  | cons c t =>
    have hne : c :: t ≠ [] := List.cons_ne_nil c t
    exact ⟨.inr, fun h => h.resolve_left hne⟩

/-- A body is shown, whatever its references come to. If it is left whole, the dash stands for one
that is converted to nothing, and any other is shown as far as it was before. If it is cut, its
ellipsis is shown, unless that is swallowed. What stands in the open in the body is always shown,
or the ellipsis in its place. -/
theorem renderBody_shows {σ : Type} (sv : Bracket.Services σ) {n : Int} (hn : 1 ≤ n) {source : Text}
    (hsource : Bracket.ReadableIds source) (s : σ) :
    ∃ html shown s', Bracket.convert sv source s = .ok (html, s') ∧
      renderBody sv n source s = .ok (shown, s') ∧
      (Html.visibleSize html ≤ n → (Html.Shows shown ↔ html = [] ∨ Html.Shows html)) ∧
      (n < Html.visibleSize html → ¬ Html.Swallowed n html → Html.Shows shown) ∧
      (Text.HasOpen (Bracket.filledBody sv source s) → Html.Shows shown) := by
  obtain ⟨s', hconvert⟩ := Bracket.exists_convert_eq sv hsource s
  have hopen := @Bracket.shows_excerpt_finish n hn (Bracket.filledBody sv source s)
  generalize hhtml : Bracket.finish (Bracket.filledBody sv source s) = html at hconvert hopen
  have hrender : renderBody sv n source s =
      .ok (if (Html.excerpt n html).isEmpty then dash else Html.excerpt n html, s') := by
    simp only [renderBody, bind, Except.bind, pure, Except.pure, hconvert]
  refine ⟨html, _, s', hconvert, hrender, fun hfits => ?_, fun hlong hfree => ?_, fun h => ?_⟩
  · have hwhole : Html.excerpt n html = html := by
      rw [Html.excerpt, if_neg (not_le.mpr (lt_of_lt_of_le zero_lt_one hn)), if_pos hfits]
    rw [hwhole]
    exact shows_or_dash
  · exact shows_or_dash.mpr (.inr (Html.shows_excerpt_of_cut hn hlong hfree))
  · exact shows_or_dash.mpr (.inr (hopen h))

/-- A blank in italics, and a mention of a user whom nobody knows. -/
def blankAndMention : Text := "[I] [/I][USER=2][/USER]".toList

theorem renderBody_shows_blankAndMention :
    (1 : Int) ≤ 1 ∧ Bracket.ReadableIds blankAndMention ∧
      Text.HasOpen
        (Bracket.filledBody (.recording Bracket.findNothing Bracket.knowNobody)
        blankAndMention .empty) ∧
      ∃ shown log, renderBody (.recording Bracket.findNothing Bracket.knowNobody) 1
        blankAndMention .empty =
        .ok (shown, log) ∧ Html.Shows shown := by
  have hconvert :
      Bracket.convert (.recording Bracket.findNothing Bracket.knowNobody) blankAndMention .empty =
      .ok ("<i> </i>2".toList, ⟨[], [2], []⟩) := by decide +kernel
  have hids : Bracket.ReadableIds blankAndMention :=
    (Bracket.convert_succeeds_iff _ _ _).mp ⟨_, _, hconvert⟩
  have hfilled :
      Bracket.filledBody (.recording Bracket.findNothing Bracket.knowNobody)
      blankAndMention .empty =
      '[' :: (['I'] ++ [']']) ++ ([' '] ++ ('[' :: (['/', 'I'] ++ [']']) ++ ['2'])) := by
        decide +kernel
  have hopening : Text.Atom ('[' :: (['I'] ++ [']'])) := .tag (by decide)
  have hclosing : Text.Atom ('[' :: (['/', 'I'] ++ [']'])) := .tag (by decide)
  have hblank : Text.Atom [' '] := .char (by decide) (by decide)
  have hdigit : Text.Solid '2' := by decide
  have hopen : Text.HasOpen
      (Bracket.filledBody (.recording Bracket.findNothing Bracket.knowNobody) blankAndMention
        .empty) := by
    rw [hfilled]
    refine ⟨.append hopening (.append hblank (.append hclosing (.of_part hdigit.atom))), ?_⟩
    exact ⟨['[', 'I', ']', ' ', '[', '/', 'I', ']'], '2', [], rfl, hdigit, by decide, by decide⟩
  obtain ⟨-, shown, log, -, hrender, -, -, hshows⟩ :=
    renderBody_shows (.recording Bracket.findNothing Bracket.knowNobody) (le_refl 1) hids .empty
  exact ⟨le_refl 1, hids, hopen, shown, log, hrender, hshows hopen⟩

example : renderBody (.recording Bracket.findNothing Bracket.knowNobody) 1 blankAndMention .empty =
    .ok ("<i> </i>…".toList, ⟨[], [2], []⟩) := by decide +kernel

theorem shows_ofInt (id : Int) : Html.Shows (Text.ofInt id) := by
  have hangle : '<' ∉ Text.ofInt id := fun hm => ((Bracket.escaped_ofInt id).ne_angle _ hm).1 rfl
  rw [Html.shows_iff, Html.stripTags, rewrite_of_silent (Html.begins_tag.silent hangle)]
  obtain ⟨c, t, hid, hc⟩ := exists_ofInt_eq_cons id
  rw [hid]
  refine ⟨c, List.mem_cons_self .., ?_⟩
  rcases hc with rfl | hdigit
  · decide
  · exact Html.not_isBlank_of_isAlphanum (by simp [Char.isAlphanum, hdigit])

/-- An element around nothing is no empty body, and nothing of it is shown. -/
theorem renderBody_hides_emptyElement :
    (1 : Int) ≤ 5 ∧ Bracket.ReadableIds "[B][/B]".toList ∧
      (∀ id f, Bracket.findNothing id = .ok (some f) → Text.blank f.name = false) ∧
      (∀ id link, Bracket.knowNobody id = .ok link → Html.Shows link) ∧
      ∃ shown, renderBody (.recording Bracket.findNothing Bracket.knowNobody) 5
        "[B][/B]".toList .empty =
        .ok (shown, .empty) ∧ ¬ Html.Shows shown := by
  have hconvert :
      Bracket.convert (.recording Bracket.findNothing Bracket.knowNobody) "[B][/B]".toList .empty =
      .ok ("<b></b>".toList, .empty) := by decide +kernel
  have hrender :
      renderBody (.recording Bracket.findNothing Bracket.knowNobody) 5 "[B][/B]".toList .empty =
      .ok ("<b></b>".toList, .empty) := by decide +kernel
  refine ⟨by decide, (Bracket.convert_succeeds_iff _ _ _).mp ⟨_, _, hconvert⟩, fun id f h => ?_,
    fun id link h => ?_, _, hrender, by decide +kernel⟩
  · cases Except.ok.inj h
  · rw [Bracket.eq_ofInt_of_knowNobody h]
    exact shows_ofInt id

end TaskBulletin
