import TaskBulletin.Proofs.RecodedPasses
import TaskBulletin.Proofs.Resolution
import TaskBulletin.Proofs.Stowing
import TaskBulletin.Proofs.Trimming

/-!
# Tags and references in a recoded text

Stashing recodes the stashed tags and leaves the tokens as they are. The file
tags of a recoded text are those of the text; its mentions are recoded, with the
same ids, as long as the recoding tells the texts apart.
-/

namespace TaskBulletin

open Pattern Recoding

variable {R : Recoding}

/-! ## Tag bodies -/

theorem recode_eq_nil_iff {t : Text} (ht : R.Knows t) : R.recode t = [] ↔ t = [] := by
  cases t with
  | nil => simp
  | cons c t =>
    obtain ⟨d, w, hd, -⟩ := code_eq_cons (R.knows_cons.mp ht).1
    simp [hd]

namespace Bracket

theorem takeWhile_isTagLetter_recode {t : Text} (ht : R.Knows t) :
    (R.recode t).takeWhile Text.isTagLetter = t.takeWhile Text.isTagLetter ∧
      (R.recode t).dropWhile Text.isTagLetter = R.recode (t.dropWhile Text.isTagLetter) := by
  induction t with
  | nil => simp
  | cons c t ih =>
    obtain ⟨hc, ht⟩ := R.knows_cons.mp ht
    rcases R.same_or_quiet hc with h | ⟨hq, d, w, h, hd, -⟩
    · cases hl : Text.isTagLetter c <;> simp [h, hl, ih ht]
    · simp [h, isTagLetter_of_isQuiet hq, isTagLetter_of_isQuiet hd]

theorem dropSlash_recode {t : Text} (ht : R.Knows t) :
    dropSlash (R.recode t) = R.recode (dropSlash t) := by
  cases t with
  | nil => rfl
  | cons c t =>
    by_cases hc : c = '/'
    · subst hc
      rw [recode_cons, code_of_not_quiet (by decide)]
      rfl
    · obtain ⟨d, w, hd, hne⟩ := code_eq_cons_ne (x := '/') (by decide) (by decide)
        (R.knows_cons.mp ht).1 hc
      rw [dropSlash_cons hc, recode_cons, hd]
      exact dropSlash_cons hne _

theorem dropSlash_suffix (t : Text) : dropSlash t <:+ t := by
  cases t with
  | nil => exact List.suffix_rfl
  | cons c t =>
    by_cases hc : c = '/'
    · subst hc
      exact List.suffix_cons ..
    · exact ⟨[], by rw [dropSlash_cons hc, List.nil_append]⟩

theorem isValuePart_cons {c : Char} (hc : c ≠ '=') (t : Text) : isValuePart (c :: t) = false := by
  rw [isValuePart]
  · simp
  · simpa using hc

theorem isValuePart_recode {t : Text} (ht : R.Knows t) :
    isValuePart (R.recode t) = isValuePart t := by
  cases t with
  | nil => rfl
  | cons c t =>
    obtain ⟨hc, hrest⟩ := R.knows_cons.mp ht
    by_cases he : c = '='
    · subst he
      have hempty : (R.recode t).isEmpty = t.isEmpty := by
        rw [Bool.eq_iff_iff, List.isEmpty_iff, List.isEmpty_iff]
        exact recode_eq_nil_iff hrest
      rw [recode_cons, code_of_not_quiet (by decide)]
      simp [isValuePart, hempty]
    · obtain ⟨d, w, hd, hne⟩ := code_eq_cons_ne (x := '=') (by decide) (by decide) hc he
      rw [isValuePart_cons he, recode_cons, hd]
      exact isValuePart_cons hne _

theorem knows_suffix {t u : Text} (hu : u <:+ t) (ht : R.Knows t) : R.Knows u :=
  fun c hc => ht c (hu.subset hc)

theorem isTagBody_recode {t : Text} (ht : R.Knows t) : isTagBody (R.recode t) = isTagBody t := by
  have hs := knows_suffix (dropSlash_suffix t) ht
  have hd := knows_suffix (List.dropWhile_suffix (l := dropSlash t) Text.isTagLetter) hs
  simp only [isTagBody]
  rw [dropSlash_recode ht, (takeWhile_isTagLetter_recode hs).1, (takeWhile_isTagLetter_recode hs).2,
    isValuePart_recode hd]

theorem isMentionBody_recode {t : Text} (ht : R.Knows t) :
    isMentionBody (R.recode t) = isMentionBody t := by
  have hs := knows_suffix (dropSlash_suffix t) ht
  rw [isMentionBody, isMentionBody, dropSlash_recode ht, readWord_recode (by decide) hs]
  cases hr : Text.readWord "USER".toList (dropSlash t) with
  | none => rfl
  | some r =>
    obtain ⟨spelled, rest⟩ := r
    have hrest : R.Knows rest := by
      rw [(Text.readWord_eq_append hr).1, R.knows_append] at hs
      exact hs.2
    exact isValuePart_recode hrest

theorem knows_content {s : Span Text Text} (hs : R.Knows (bracketed.spelling s)) :
    R.Knows s.content := by
  have he : bracketed.spelling s = s.opener ++ s.content ++ s.closer := rfl
  rw [he, R.knows_append, R.knows_append] at hs
  exact hs.1.2

theorem mirrors_anyTag : Mirrors anyTag anyTag R (recodeSpan R id id) :=
  mirrors_bracketed.filter fun _ hs => isTagBody_recode (knows_content hs)

theorem mirrors_mentionTag : Mirrors mentionTag mentionTag R (recodeSpan R id id) :=
  mirrors_bracketed.filter fun _ hs => isMentionBody_recode (knows_content hs)

theorem covers_mentionTag_recode {t : Text} (ht : R.Knows t) :
    mentionTag.covers (R.recode t) = mentionTag.covers t := by
  rw [covers, covers, mirrors_mentionTag.read_recode ht]
  cases hr : mentionTag.read t with
  | none => rfl
  | some r =>
    obtain ⟨a, rest⟩ := r
    have hrest := recode_eq_nil_iff (knows_of_read hr ht).2
    cases rest with
    | nil => rfl
    | cons c rest =>
      have hne : R.recode (c :: rest) ≠ [] := fun he => by simpa using hrest.mp he
      obtain ⟨d, u, hd⟩ := List.exists_cons_of_ne_nil hne
      simp only [Option.map_some, hd]

end Bracket

/-! ## Stashed tags -/

namespace Stash

def recode (R : Recoding) (s : Stash) : Stash :=
  { s with fragments := s.fragments.map R.recode }

theorem recode_add (s : Stash) (fragment : Text) :
    (s.add fragment).recode R = (s.recode R).add (R.recode fragment) := by
  simp [recode, add]

theorem nextToken_recode (s : Stash) : (s.recode R).nextToken = s.nextToken := by
  simp [recode, nextToken, token, size]

theorem token_not_quiet {s : Stash} (hl : ∀ c ∈ s.label, isQuiet c = false) (k : Nat) :
    ∀ c ∈ s.token k, isQuiet c = false := by
  intro c hc
  simp only [token, List.cons_append, List.mem_cons, List.mem_append, List.not_mem_nil,
    or_false] at hc
  rcases hc with rfl | (hc | hc) | rfl
  · rfl
  · exact hl c hc
  · exact Text.isQuiet_of_mem_ofNat hc
  · rfl

variable {α β : Type} {p : Pattern α} {q : Pattern β} {image : α → β}

theorem stowPieces_recode {skip : Text → Bool} (ps : List (Piece α))
    (hspell : ∀ a, .hit a ∈ ps → q.spelling (image a) = R.recode (p.spelling a))
    (hskip : ∀ a, .hit a ∈ ps → skip (R.recode (p.spelling a)) = skip (p.spelling a)) (s : Stash)
    (hl : ∀ c ∈ s.label, isQuiet c = false) :
    stowPieces q.spelling skip (ps.flatMap (Mirrors.recodePiece R image)) (s.recode R) =
      (R.recode (stowPieces p.spelling skip ps s).1,
        (stowPieces p.spelling skip ps s).2.recode R) := by
  induction ps generalizing s with
  | nil => rfl
  | cons piece ps ih =>
    have ih := ih (fun a ha => hspell a (List.mem_cons_of_mem _ ha))
      fun a ha => hskip a (List.mem_cons_of_mem _ ha)
    rw [List.flatMap_cons]
    cases piece with
    | plain c =>
      rw [Mirrors.recodePiece, stowPieces_map_plain, ih s hl]
      simp [stowPieces]
    | hit a =>
      have ha := hspell a (List.mem_cons_self ..)
      have hs := hskip a (List.mem_cons_self ..)
      simp only [Mirrors.recodePiece, List.singleton_append, stowPieces, ha, hs]
      cases skip (p.spelling a) with
      | true => simp [ih s hl]
      | false =>
        rw [← recode_add, ih (s.add (p.spelling a)) hl, nextToken_recode]
        simp [nextToken, recode_of_not_quiet (token_not_quiet hl _)]

end Stash

namespace Bracket

theorem stashTags_recode {t : Text} (ht : R.Knows t) :
    stashTags emptyTags (R.recode t) =
      (R.recode (stashTags emptyTags t).1, (stashTags emptyTags t).2.recode R) := by
  rw [stashTags, Stash.stow, mirrors_anyTag.pieces_recode ht]
  have hknows (a : Span Text Text) (ha : .hit a ∈ anyTag.pieces t) :
      R.Knows (anyTag.spelling a) := by
    rw [← mem_hits_iff] at ha
    exact fun c hc => ht c (mem_of_mem_spelling ha c hc)
  refine Stash.stowPieces_recode _ (fun a ha => ?_) (fun a ha => ?_) emptyTags (by decide)
  · rw [← mem_hits_iff] at ha
    obtain ⟨u, rest, hu, hr⟩ := exists_read_of_mem_hits ha
    exact mirrors_anyTag.spelling_image hr (knows_suffix hu ht)
  · exact covers_mentionTag_recode (hknows a ha)

/-! ## File tags -/

theorem not_quiet_of_reads_word {w a : Text} (hw : ∀ x ∈ w, isLoud x = true)
    (h : (word w).Reads a) : ∀ c ∈ a, isQuiet c = false := by
  intro c hc
  obtain ⟨x, hx, hs⟩ := exists_spells_of_mem h.word hc
  rw [← Bool.not_eq_true]
  intro hq
  rw [spells_of_isQuiet (hw x hx) hq] at hs
  cases hs

theorem isFileIdCharacter_of_isQuiet {c : Char} (h : isQuiet c = true) :
    isFileIdCharacter c = false := by
  rw [isFileIdCharacter, isWordCharacter_of_isQuiet h, Bool.or_false, beq_eq_false_iff_ne]
  exact ne_of_isQuiet (by decide) h

theorem mirrors_fileTag : Mirrors fileTag fileTag R (recodeSpan R id id) := by
  have hb : Mirrors (between (word "[DISK FILE ID=".toList) isFileIdCharacter (exact [']']))
      (between (word "[DISK FILE ID=".toList) isFileIdCharacter (exact [']'])) R
      (recodeSpan R id id) :=
    Mirrors.between (mirrors_tag (by decide)) mirrors_bracketEnd
      (keeps_of_not_quiet fun _ hc => isFileIdCharacter_of_isQuiet hc)
  refine hb.filter fun s hs => ?_
  have hcontent : R.Knows s.content := knows_content hs
  congr 1
  rw [Bool.eq_iff_iff, List.isEmpty_iff, List.isEmpty_iff]
  exact recode_eq_nil_iff hcontent

theorem not_quiet_of_mem_hits {t : Text} {tag : FileTag} (h : tag ∈ fileTag.hits t) :
    ∀ c ∈ fileTag.spelling tag, isQuiet c = false := by
  obtain ⟨hr, -⟩ := (reads_of_mem_hits h).filter
  obtain ⟨ho, hc, hb⟩ := hr.between
  have hs : fileTag.spelling tag = tag.opener ++ tag.content ++ tag.closer := rfl
  intro c hm
  rw [hs, hb.exact, List.mem_append, List.mem_append, List.mem_singleton] at hm
  rcases hm with (hm | hm) | rfl
  · exact not_quiet_of_reads_word (by decide) ho c hm
  · have hid := hc c hm
    rw [← Bool.not_eq_true]
    intro hq
    rw [isFileIdCharacter_of_isQuiet hq] at hid
    cases hid
  · rfl

theorem hits_fileTag_recode {t : Text} (ht : R.Knows t) :
    fileTag.hits (R.recode t) = fileTag.hits t := by
  rw [mirrors_fileTag.hits_recode ht]
  refine (List.map_congr_left fun tag htag => ?_).trans (List.map_id _)
  have hq := not_quiet_of_mem_hits htag
  obtain ⟨opener, content, closer⟩ := tag
  have hcontent : R.recode content = content :=
    recode_of_not_quiet fun c hc => hq c (List.mem_append_left _ (List.mem_append_right _ hc))
  simp [recodeSpan, hcontent]

theorem fileTags_recode {t : Text} (ht : R.Knows t) : fileTags (R.recode t) = fileTags t := by
  rw [fileTags, hits_fileTag_recode ht, fileTags]

/-! ## Mentions -/

/-- A label may not hold a line feed, so a recoding has to keep it to a line. -/
theorem mirrors_mention (hline : Keeps R (· != '\n')) :
    Mirrors mention mention R (recodeSpan R (recodeSpan R id id) id) :=
  Mirrors.between (mirrors_valued (by decide)) (mirrors_tag (by decide)) hline

theorem digits?_recode {t : Text} (ht : R.Knows t) :
    Numeral.digits? (R.recode t) = Numeral.digits? t := by
  induction t with
  | nil => rfl
  | cons c t ih =>
    obtain ⟨hc, ht⟩ := R.knows_cons.mp ht
    rw [Numeral.digits?] at ih ⊢
    rcases R.same_or_quiet hc with h | ⟨hq, d, w, h, hd, -⟩
    · rw [recode_cons, h, List.singleton_append, List.mapM_cons, ih ht, Numeral.digits?,
        Numeral.digits?, List.mapM_cons]
    · rw [recode_cons, h, Numeral.digits?, List.cons_append, List.mapM_cons, List.mapM_cons,
        digitValue?_of_isQuiet hq, digitValue?_of_isQuiet hd]
      rfl

theorem splitSign_recode {t : Text} (ht : R.Knows t) :
    Numeral.splitSign (R.recode t) =
      ((Numeral.splitSign t).1, R.recode (Numeral.splitSign t).2) := by
  cases t with
  | nil => rfl
  | cons c t =>
    obtain ⟨hc, -⟩ := R.knows_cons.mp ht
    by_cases hm : c = '-'
    · subst hm
      rw [recode_cons, code_of_not_quiet (by decide)]
      rfl
    · by_cases hp : c = '+'
      · subst hp
        rw [recode_cons, code_of_not_quiet (by decide)]
        rfl
      · obtain ⟨d, w, hd, hdm⟩ := code_eq_cons_ne (x := '-') (by decide) (by decide) hc hm
        have hdp := notMem_code (x := '+') (by decide) (by decide) hc hp
        rw [hd, List.mem_cons, not_or] at hdp
        rw [Numeral.splitSign_cons hm hp, recode_cons, hd]
        exact Numeral.splitSign_cons hdm (Ne.symm hdp.1) _

theorem userId_recode {part : Text} (ht : R.Knows part) : userId (R.recode part) = userId part := by
  have htrim : R.Knows (Text.trim part) := fun c hc => ht c (Text.mem_of_mem_trim hc)
  have hbody := knows_suffix (Numeral.splitSign_suffix (Text.trim part)) htrim
  rw [userId, userId, Text.trim_recode ht, splitSign_recode htrim]
  generalize Numeral.splitSign (Text.trim part) = split at hbody
  obtain ⟨negative, body⟩ := split
  simp only [digits?_recode hbody]
  cases body with
  | nil => rfl
  | cons c body =>
    obtain ⟨d, w, hd, -⟩ := code_eq_cons (R.knows_cons.mp hbody).1
    rw [recode_cons, hd]
    cases Numeral.digits? (c :: body) <;> rfl

end Bracket

end TaskBulletin
