import TaskBulletin.Proofs.Asking
import TaskBulletin.Proofs.Exchange
import TaskBulletin.Proofs.Fragment

/-!
# Each reference with its own token

Both reference passes find their references once and then put the tokens for one after another.
No bracket stands inside a file tag, so the pass for files is one pass over its tags, whatever
else the text holds. A mention may begin inside another one, in its id or in its label, and is
replaced there as well if it was found elsewhere; the outer one then is not found any more. So
the pass for mentions gives each its own token exactly if that does not happen.
-/

namespace TaskBulletin

theorem nodup_eraseDups {α : Type} [DecidableEq α] (l : List α) : l.eraseDups.Nodup := by
  induction hn : l.length using Nat.strong_induction_on generalizing l with
  | _ n ih =>
    subst hn
    cases l with
    | nil => simp
    | cons a l =>
      rw [List.eraseDups_cons, List.nodup_cons]
      refine ⟨by simp [List.mem_eraseDups], ih _ ?_ _ rfl⟩
      exact Nat.lt_succ_of_le (List.length_filter_le ..)

namespace Pattern

variable {α : Type} {p : Pattern α}

theorem rewrite_congr {f g : α → Text} {t : Text} (h : ∀ a ∈ p.hits t, f a = g a) :
    p.rewrite f t = p.rewrite g t := by
  simp only [mem_hits_iff] at h
  rw [rewrite, rewrite]
  generalize p.pieces t = ps at h
  induction ps with
  | nil => rfl
  | cons piece ps ih =>
    have ih := ih fun a ha => h a (List.mem_cons_of_mem _ ha)
    cases piece with
    | plain c => rw [writeWith, writeWith, ih]
    | hit a => rw [writeWith, writeWith, ih, h a (List.mem_cons_self ..)]

theorem Always.eq_of_spelling {a b : α} (ha : p.Always a) (hb : p.Always b)
    (h : p.spelling a = p.spelling b) : a = b := by
  have hread := hb []
  rw [← h, ha []] at hread
  exact (Prod.mk.inj (Option.some.inj hread)).1

theorem nodup_map_spelling {found : List α} (hfound : ∀ a ∈ found, p.Always a) (h : found.Nodup) :
    (found.map p.spelling).Nodup :=
  h.map_on fun a ha b hb => (hfound a ha).eq_of_spelling (hfound b hb)

end Pattern

namespace Bracket

open Pattern

instance (numeral? : Option Text) : Decidable (Readable numeral?) :=
  inferInstanceAs (Decidable (∀ digits ∈ numeral?, _))

/-! ## File tags -/

theorem replaceable_fileTag {tag : FileTag} (h : fileTag.Reads tag) : fileTag.Replaceable tag where
  always := selfDelimiting_fileTag.always h
  bracket := begins_fileTag.exists_spelling h
  nul_notMem := (FileMark.mk tag h).notMem_source (by decide)

theorem silent_inside_fileTag {tag : FileTag} (h : fileTag.Reads tag) :
    fileTag.Silent (fileTag.spelling tag).tail :=
  begins_fileTag.silent (FileMark.mk tag h).bracket_notMem_tail

theorem mem_numberedTags {t : Text} {tag : FileTag} :
    tag ∈ numberedTags t ↔ tag ∈ fileTag.hits t ∧ (fileNumber? tag.content).isSome := by
  rw [numberedTags, List.mem_filter, List.mem_eraseDups]

theorem nodup_numberedTags (t : Text) : (numberedTags t).Nodup :=
    List.Nodup.filter _ (nodup_eraseDups _)

theorem replaceable_of_mem_numberedTags {t : Text} :
    ∀ tag ∈ numberedTags t, fileTag.Replaceable tag :=
  fun _ h => replaceable_fileTag (reads_of_mem_hits (mem_numberedTags.mp h).1)

/-- What stands for a file tag: the token of its fragment, or the tag if it has no id. -/
def fileStandIn (fragments : Stash) (t : Text) (tag : FileTag) : Text :=
  if (fileNumber? tag.content).isSome then fragments.token
    (fragments.size + (numberedTags t).idxOf tag)
  else fileTag.spelling tag

theorem tokensFor_numberedTags (fragments : Stash) (h : '[' ∉ fragments.label) (t : Text) :
    Stash.tokensFor fragments.label fragments.size ((numberedTags t).map fileTag.spelling) t =
      fileTag.rewrite (fileStandIn fragments t) t := by
  have hundisturbed :
      fileTag.Undisturbed (numberedName fragments.label fragments.size (numberedTags t))
      (fileTag.pieces t) [] (numberedTags t) :=
    undisturbed_of_silent replaceable_of_mem_numberedTags
      (fun tag htag => silent_inside_fileTag (reads_of_mem_pieces htag)) []
  rw [tokensFor_map_spelling (nodup_numberedTags t),
    replaceAll_of_undisturbed replaceable_of_mem_numberedTags
    (bracket_notMem_numberedName h) hundisturbed]
  refine rewrite_congr fun tag htag => ?_
  simp only [withTokens, mem_numberedTags, htag, true_and, fileStandIn, tokenOf_numberedName]

theorem idsOf_tagsWithIds (t : Text) :
    idsOf (tagsWithIds t) = (numberedTags t).filterMap fun tag =>
      (fileNumber? tag.content).map Int.ofNat := by
  rw [idsOf, tagsWithIds, numberedTags, List.filterMap_map, List.filterMap_filter]
  refine List.filterMap_congr fun tag _ => ?_
  cases hn : fileNumber? tag.content <;> simp [hn]

section

variable {σ : Type} (sv : Services σ) (fragments : Stash) (t : Text) (s : σ)

/-- The pass for files puts for every file tag with an id the token of its fragment, and leaves the
rest alone; it records a fragment for each of them, and asks for each once, in order. -/
theorem substituteFiles_at_once (hlabel : '[' ∉ fragments.label)
    (hids : ∀ tag ∈ fileTag.hits t, Readable (fileNumeral? tag.content)) :
    let answers := sv.logged.askFiles (tagsWithIds t) (s, .empty)
    let entries := answers.1.filterMap fileFragment?
    substituteFiles sv.logged fragments t (s, .empty) =
        .ok (fileTag.rewrite (fileStandIn fragments t) t,
        ⟨fragments.label, fragments.fragments ++ entries.map Prod.snd⟩, answers.2) ∧
      entries.map Prod.fst = (numberedTags t).map fileTag.spelling ∧ (entries.map Prod.fst).Nodup ∧
      answers.2.2.asked =
        ((numberedTags t).filterMap fun tag => (fileNumber? tag.content).map Int.ofNat, []) := by
  intro answers entries
  have hspelled : entries.map Prod.fst = (numberedTags t).map fileTag.spelling :=
    (spellings_askFiles sv.logged _ _).trans (numberedSpellings_tagsWithIds t)
  refine ⟨?_, hspelled, ?_, ?_⟩
  · rw [substituteFiles_eq, fileTags_of_readable hids, Except.map, Except.mapError,
      numberedSpellings_tagsWithIds, tokensFor_numberedTags fragments hlabel]
  · rw [hspelled]
    exact nodup_map_spelling (fun tag h => (replaceable_of_mem_numberedTags tag h).always)
      (nodup_numberedTags t)
  · rw [asked_askFiles, idsOf_tagsWithIds]
    rfl

end

/-- File tags in letters of either case, one of them twice and one without an id, and a NUL. -/
def variedTags : Text :=
  "[disk file id=n5]\x00[DISK FILE ID=n5][DISK FILE ID=x][disk file id=n5]".toList

theorem substituteFiles_at_once_variedTags :
    '[' ∉ "HTML".toList ∧ (∀ tag ∈ fileTag.hits variedTags, Readable (fileNumeral? tag.content)) ∧
    (substituteFiles (Services.logged (.recording findNothing knowNobody))
      ⟨"HTML".toList, ["f".toList]⟩
      variedTags (.empty, .empty)).map (fun x => (x.1, x.2.1.size, x.2.2.2.asked)) =
        .ok ("\x00HTML1\x00\x00\x00HTML2\x00[DISK FILE ID=x]\x00HTML1\x00".toList,
          3, [5, 5], []) := by
  have hlabel : '[' ∉ "HTML".toList := by decide
  have hids : ∀ tag ∈ fileTag.hits variedTags, Readable (fileNumeral? tag.content) := by
    decide +kernel
  refine ⟨hlabel, hids, ?_⟩
  obtain ⟨hok, -, -, hasked⟩ := substituteFiles_at_once (.recording findNothing knowNobody)
    ⟨"HTML".toList, ["f".toList]⟩ variedTags .empty hlabel hids
  rw [hok, Except.map, hasked]
  decide +kernel

/-! ## Mentions -/

theorem selfDelimiting_mention : mention.SelfDelimiting :=
  selfDelimiting_between_word (selfDelimiting_between (selfDelimiting_word _) (by decide)) _ _

def distinctMentions (t : Text) : List Mention := (mention.hits t).eraseDups

theorem nodup_distinctMentions (t : Text) : (distinctMentions t).Nodup := nodup_eraseDups _

theorem replaceable_of_mem_distinctMentions {t : Text} (ht : '\x00' ∉ t) :
    ∀ m ∈ distinctMentions t, mention.Replaceable m := by
  intro m hm
  have hits := List.mem_eraseDups.mp hm
  have hreads := reads_of_mem_hits hits
  exact ⟨selfDelimiting_mention.always hreads, begins_mention.exists_spelling hreads,
    fun h => ht (mem_of_mem_spelling hits _ h)⟩

def mentionStandIn (fragments : Stash) (t : Text) (m : Mention) : Text :=
  fragments.token (fragments.size + (distinctMentions t).idxOf m)

/-- No mention of a text, when tokens stand for those found before it, begins inside another one
that still stands. -/
def MentionsApart (fragments : Stash) (t : Text) : Prop :=
  mention.Undisturbed (numberedName fragments.label fragments.size (distinctMentions t))
    (mention.pieces t) [] (distinctMentions t)

instance (fragments : Stash) (t : Text) : Decidable (MentionsApart fragments t) :=
  decidableUndisturbed ..

theorem tokensFor_distinctMentions_iff (fragments : Stash) (hnul : '\x00' ∉ fragments.label)
    (hbracket : '[' ∉ fragments.label) {t : Text} (ht : '\x00' ∉ t) :
    Stash.tokensFor fragments.label fragments.size ((distinctMentions t).map mention.spelling) t =
      mention.rewrite (mentionStandIn fragments t) t ↔ MentionsApart fragments t := by
  have hstandIn : mention.rewrite (mentionStandIn fragments t) t = mention.rewrite
      (mention.withTokens (numberedName fragments.label fragments.size (distinctMentions t))
        (distinctMentions t))
      t := by
    refine rewrite_congr fun m hm => ?_
    have hfound : m ∈ distinctMentions t := List.mem_eraseDups.mpr hm
    rw [withTokens, if_pos hfound, tokenOf_numberedName, mentionStandIn]
  rw [tokensFor_map_spelling (nodup_distinctMentions t), hstandIn]
  exact replaceAll_eq_rewrite_iff (replaceable_of_mem_distinctMentions ht)
    (names_numberedName hnul hbracket) ht

section

variable {σ : Type} (sv : Services σ) (fragments : Stash) (t : Text) (s : σ)

/-- The pass for mentions records a fragment for each distinct mention, in order. It puts for every
mention the token of its fragment, and leaves the rest alone, exactly if the mentions are apart. -/
theorem substituteMentions_at_once_iff (hnul : '\x00' ∉ fragments.label)
    (hbracket : '[' ∉ fragments.label)
    (ht : '\x00' ∉ t) (hids : ∀ m ∈ mention.hits t, Readable (userNumeral? m.opener.content)) :
    let answers := sv.askUsers (mentionsWithIds t) s
    let entries := answers.1.map mentionFragment
    entries.map Prod.fst = (distinctMentions t).map mention.spelling ∧
      (entries.map Prod.fst).Nodup ∧
      ∃ t', substituteMentions sv fragments t s =
          .ok (t', ⟨fragments.label, fragments.fragments ++ entries.map Prod.snd⟩, answers.2) ∧
        (t' = mention.rewrite (mentionStandIn fragments t) t ↔ MentionsApart fragments t) := by
  intro answers entries
  have hdistinct : (mentionsWithIds t).map (fun x => mention.spelling x.1) =
      (distinctMentions t).map mention.spelling := by
    rw [mentionsWithIds, List.map_map]
    rfl
  have hspelled : entries.map Prod.fst = (distinctMentions t).map mention.spelling :=
    (spellings_askUsers sv _ _).trans hdistinct
  refine ⟨hspelled, ?_, _, ?_, tokensFor_distinctMentions_iff fragments hnul hbracket ht⟩
  · rw [hspelled]
    exact nodup_map_spelling (fun m h => (replaceable_of_mem_distinctMentions ht m h).always)
      (nodup_distinctMentions t)
  · rw [substituteMentions_eq, mentions_of_readable hids, Except.map, Except.mapError, hdistinct]

end

/-- One mention stands inside another, and also after it. -/
def outerFirst : Text := "[USER=1]a[USER=2]b[/USER] [USER=2]b[/USER]".toList

theorem substituteMentions_at_once_iff_outerFirst :
    '\x00' ∉ emptyFragments.label ∧ '[' ∉ emptyFragments.label ∧ '\x00' ∉ outerFirst ∧
    (∀ m ∈ mention.hits outerFirst, Readable (userNumeral? m.opener.content)) ∧
    (substituteMentions (.recording findNothing knowNobody) emptyFragments outerFirst .empty).map
      Prod.fst =
      .ok (mention.rewrite (mentionStandIn emptyFragments outerFirst) outerFirst) := by
  have hnul : '\x00' ∉ emptyFragments.label := by decide
  have hbracket : '[' ∉ emptyFragments.label := by decide
  have ht : '\x00' ∉ outerFirst := by decide
  have hids : ∀ m ∈ mention.hits outerFirst, Readable (userNumeral? m.opener.content) := by
    decide +kernel
  refine ⟨hnul, hbracket, ht, hids, ?_⟩
  obtain ⟨-, -, t', hok, hiff⟩ := substituteMentions_at_once_iff (.recording findNothing knowNobody)
    emptyFragments outerFirst .empty hnul hbracket ht hids
  have hapart : MentionsApart emptyFragments outerFirst := by decide +kernel
  rw [hok, ← hiff.mpr hapart]
  rfl

/-- One mention stands inside another, and also before it. -/
def nestedMention : Text := "[USER=2]b[/USER] [USER=1]a[USER=2]b[/USER]".toList

/-- The outer mention is found, but no token is put for it. -/
theorem substituteMentions_not_at_once_nested :
    (substituteMentions (.recording findNothing knowNobody) emptyFragments nestedMention .empty).map
      Prod.fst ≠
      .ok (mention.rewrite (mentionStandIn emptyFragments nestedMention) nestedMention) := by
  decide +kernel

end Bracket

end TaskBulletin
