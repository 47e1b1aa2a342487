import TaskBulletin.Proofs.Kept
import TaskBulletin.Proofs.Resolution
import TaskBulletin.Proofs.Stowing

/-!
# Tokens that are left over

A body without NULs gives a result without NULs unless a token is misread when the
tags come back. The passes after that move NULs along, with the text around them,
and lose none but in the values of colours and sizes. A report can hold a token too:
in the id part of a mention that is not valid.
-/

namespace TaskBulletin

namespace Pattern

variable {α : Type}

/-- A pass neither adds nor loses a character that each replacement has exactly if the
match has it. -/
theorem mem_rewrite_iff {c : Char} {p : Pattern α} {f : α → Text} {t : Text}
    (h : ∀ a ∈ p.hits t, c ∈ f a ↔ c ∈ p.spelling a) : c ∈ p.rewrite f t ↔ c ∈ t := by
  rw [rewrite, mem_writeWith, @mem_iff_mem_pieces _ p t]
  refine or_congr_right (exists_congr fun a => and_congr_right fun ha => ?_)
  exact h a (mem_hits_iff.mpr ha)

theorem count_rewrite {c : Char} {p : Pattern α} {f lost : α → Text} {t : Text}
    (h : ∀ a ∈ p.hits t, (f a).count c + (lost a).count c = (p.spelling a).count c) :
    (p.rewrite f t).count c + ((p.hits t).map fun a => (lost a).count c).sum = t.count c := by
  simp only [mem_hits_iff] at h
  conv_rhs => rw [← p.writeWith_spelling_pieces t]
  rw [rewrite, hits]
  generalize p.pieces t = ps at h
  induction ps with
  | nil => rfl
  | cons piece ps ih =>
    have ih := ih fun a ha => h a (List.mem_cons_of_mem _ ha)
    cases piece with
    | plain d =>
      rw [writeWith, writeWith, List.count_cons, List.count_cons, ← ih]
      simp only [List.filterMap_cons]
      omega
    | hit a =>
      have ha := h a (List.mem_cons_self ..)
      rw [writeWith, writeWith, List.count_append, List.count_append, ← ih, ← ha]
      simp only [List.filterMap_cons, List.map_cons, List.sum_cons]
      omega

end Pattern

namespace Bracket

open Text Pattern

/-- A NUL is no blank, and no tag and no mark of a block holds one. -/
theorem foreign_nul : Foreign ['\x00'] := ⟨by decide, by decide, by decide⟩

theorem nul_mem_iff_of_only_eq {t u : Text} (h : only ['\x00'] t = only ['\x00'] u) :
    '\x00' ∈ t ↔ '\x00' ∈ u :=
  mem_iff_of_only_eq (List.mem_singleton_self _) h

/-! ## Inline elements -/

theorem nul_mem_element {name : Text} (hn : '\x00' ∉ name) {content : Text} :
    '\x00' ∈ Html.element name content ↔ '\x00' ∈ content := by
  simp [Html.element, hn]

theorem nul_mem_escapeDoubleQuotes {t : Text} :
    '\x00' ∈ Html.escapeDoubleQuotes t ↔ '\x00' ∈ t := by
  constructor
  · intro h
    refine (Html.mem_escapeDoubleQuotes h).resolve_right ?_
    decide
  · intro h
    exact List.mem_flatMap.mpr ⟨_, h, by decide⟩

theorem nul_mem_anchorRaw {target body : Text} :
    '\x00' ∈ Html.anchorRaw target body ↔ '\x00' ∈ target ∨ '\x00' ∈ body := by
  have h1 : '\x00' ∉ "<a href=\"".toList := by decide
  have h2 : '\x00' ∉ "\">".toList := by decide
  have h3 : '\x00' ∉ "</a>".toList := by decide
  unfold Html.anchorRaw
  simp only [List.mem_append, h1, h2, h3, false_or, or_false]

theorem nul_mem_rewrite_paired {name : Text}
    (hn : ∀ d ∈ ['\x00'], ∀ x ∈ name, Text.spells x d = false) {f : Span Text Text → Text}
    (hf : ∀ s, '\x00' ∈ f s ↔ '\x00' ∈ s.content) (t : Text) :
    '\x00' ∈ (paired name).rewrite f t ↔ '\x00' ∈ t := by
  apply mem_rewrite_iff
  intro e he
  have hs := only_spelling_paired (by decide) hn (reads_of_mem_hits he)
  rw [hf, nul_mem_iff_of_only_eq hs]

theorem Style.nul_mem_render (style : Style) {t : Text} : '\x00' ∈ style.render t ↔ '\x00' ∈ t := by
  have hname : '\x00' ∉ style.elementName := by cases style <;> decide
  rw [render, pattern, nul_mem_rewrite_paired (by cases style <;> decide)]
  exact fun e => nul_mem_element hname

/-- The NULs of an element with a value are those of the value and of its content. -/
theorem count_spelling_pairedWithValue {name : Text}
    (hn : ∀ d ∈ ['\x00'], ∀ x ∈ name, Text.spells x d = false) {e : Span (Span Text Text) Text}
    (h : (pairedWithValue name).Reads e) :
    e.content.count '\x00' + e.opener.content.count '\x00' =
      ((pairedWithValue name).spelling e).count '\x00' := by
  have hs := only_spelling_pairedWithValue (by decide) hn h
  rw [← only_append] at hs
  have hc := count_eq_of_only_eq (List.mem_singleton_self _) hs
  rw [List.count_append] at hc
  omega

theorem nul_mem_renderLinks {t : Text} : '\x00' ∈ renderLinks t ↔ '\x00' ∈ t := by
  unfold renderLinks
  rw [plainLink, nul_mem_rewrite_paired (by decide), targetedLink, mem_rewrite_iff]
  · intro e he
    have hc := count_spelling_pairedWithValue (by decide) (reads_of_mem_hits he)
    rw [nul_mem_anchorRaw, nul_mem_escapeDoubleQuotes, ← List.count_pos_iff, ← List.count_pos_iff,
      ← List.count_pos_iff, ← hc]
    omega
  · intro e
    rw [nul_mem_anchorRaw, nul_mem_escapeDoubleQuotes, or_self]

theorem nul_mem_renderInline {t : Text} : '\x00' ∈ renderInline t ↔ '\x00' ∈ t := by
  simp only [renderInline, List.foldl_cons, List.foldl_nil, Style.nul_mem_render,
    nul_mem_renderLinks]

/-! ## Values that are dropped -/

/-- The values of colours and sizes, in the texts that those passes read. -/
def droppedValues (t : Text) : List Text :=
  let t := (paired "IMG".toList).rewrite Span.content t
  let u := (pairedWithValue "COLOR".toList).rewrite Span.content t
  ((pairedWithValue "COLOR".toList).hits t).map (·.opener.content) ++
    ((pairedWithValue "SIZE".toList).hits u).map (·.opener.content)

/-- Every NUL of the text stands in a value that is dropped. -/
def OnlyDropsNuls (t : Text) : Prop :=
  t.count '\x00' = ((droppedValues t).map fun v => v.count '\x00').sum

theorem count_rewrite_image (t : Text) :
    ((paired "IMG".toList).rewrite Span.content t).count '\x00' = t.count '\x00' := by
  have hs : only ['\x00'] ((paired "IMG".toList).rewrite Span.content t) = only ['\x00'] t :=
    only_rewrite_paired (by decide) (by decide) (fun _ => rfl) t
  exact count_eq_of_only_eq (List.mem_singleton_self _) hs

theorem count_unwrapUnsupported (t : Text) :
    (unwrapUnsupported t).count '\x00' + ((droppedValues t).map fun v => v.count '\x00').sum =
      t.count '\x00' := by
  rw [← count_rewrite_image t]
  unfold unwrapUnsupported droppedValues
  generalize (paired "IMG".toList).rewrite Span.content t = t
  have hcolor := @count_rewrite _ '\x00' (pairedWithValue "COLOR".toList) Span.content
    (·.opener.content) t fun e he =>
      count_spelling_pairedWithValue (by decide) (reads_of_mem_hits he)
  have hsize := @count_rewrite _ '\x00' (pairedWithValue "SIZE".toList) Span.content
    (·.opener.content) ((pairedWithValue "COLOR".toList).rewrite Span.content t)
    fun e he => count_spelling_pairedWithValue (by decide) (reads_of_mem_hits he)
  simp only [List.map_append, List.map_map, List.sum_append, Function.comp_def]
  omega

theorem nul_notMem_unwrapUnsupported_iff {t : Text} :
    '\x00' ∉ unwrapUnsupported t ↔ OnlyDropsNuls t := by
  have hc := count_unwrapUnsupported t
  rw [← List.count_eq_zero, OnlyDropsNuls]
  omega

/-- The passes after the tags are back leave no NUL if there is none, or if those that
there are stand in dropped values. -/
theorem nul_notMem_finish_iff {t : Text} :
    '\x00' ∉ finish t ↔ OnlyDropsNuls (renderInline (flattenBlocks t)) := by
  rw [finish, nul_mem_iff_of_only_eq (only_normalizeSpacing foreign_nul.blank _),
    nul_notMem_unwrapUnsupported_iff]

/-! ## Reports -/

/-- No text that is reported with the problem holds a NUL. -/
def Problem.NulFree (p : Problem) : Prop :=
  ∀ name t, (name, .text t) ∈ p.entry.fields → '\x00' ∉ t

theorem Problem.nulFree_invalidMention {idPart : Text} :
    (invalidMention idPart).NulFree ↔ '\x00' ∉ idPart := by
  constructor
  · intro h
    exact h "user_id" idPart (List.mem_singleton_self _)
  · intro h name t ht
    obtain ⟨-, ht⟩ := Prod.mk.inj (List.mem_singleton.mp ht)
    obtain rfl := Value.text.inj ht
    exact h

theorem Problem.nulFree_unnumberedFile {tag : Text} (h : '\x00' ∉ tag) :
    (unnumberedFile tag).NulFree := by
  intro name t ht
  obtain ⟨-, ht⟩ := Prod.mk.inj (List.mem_singleton.mp ht)
  obtain rfl := Value.text.inj ht
  exact h

theorem Problem.nulFree_missingFile {id : Int} : (missingFile id).NulFree := by
  intro name t ht
  cases (Prod.mk.inj (List.mem_singleton.mp ht)).2

theorem Problem.nulFree_of_reason {p : Problem} {idField reasonField : String} {id : Int}
    {reason : Text} (hp : p.entry.fields = [(idField, .int id), (reasonField, .text reason)])
    (h : '\x00' ∉ reason) : p.NulFree := by
  intro name t ht
  rw [hp] at ht
  rcases List.mem_cons.mp ht with ht | ht
  · cases (Prod.mk.inj ht).2
  · obtain rfl := Value.text.inj (Prod.mk.inj (List.mem_singleton.mp ht)).2
    exact h

theorem nul_notMem_fileTag {t : Text} {tag : FileTag} (h : tag ∈ fileTag.hits t) :
    '\x00' ∉ fileTag.spelling tag := by
  obtain ⟨hr, -⟩ := (reads_of_mem_hits h).filter
  obtain ⟨-, hc, -⟩ := hr.between
  have hs : only ['\x00'] (fileTag.spelling tag) = only ['\x00'] tag.content :=
    only_spelling_between_of_lacks (fun d hd => lacks_word (by revert d; decide))
      (fun d hd => lacks_exact (by revert d; decide)) hr
  rw [nul_mem_iff_of_only_eq hs]
  intro hm
  have hn := hc _ hm
  revert hn
  decide +kernel

section

variable {file : Int → Except Text (Option DiskFile)} {user : Int → Except Text Text}

theorem FileOutcome.nulFree_problem (hfile : ∀ id reason, file id = .error reason → '\x00' ∉ reason)
    {id : Int} {p : Problem} (h : p ∈ (FileOutcome.ofAnswer id (file id)).problem?) :
    p.NulFree := by
  cases ha : file id with
  | ok answer =>
    rw [ha] at h
    cases answer with
    | none =>
      obtain rfl := Option.some.inj h
      exact Problem.nulFree_missingFile
    | some found => cases h
  | error reason =>
    rw [ha] at h
    obtain rfl := Option.some.inj h
    exact Problem.nulFree_of_reason rfl (hfile id _ ha)

theorem UserOutcome.nulFree_problem (huser : ∀ id reason, user id = .error reason → '\x00' ∉ reason)
    {id : Int} {p : Problem} (h : p ∈ (UserOutcome.ofAnswer id (user id)).problem?) :
    p.NulFree := by
  cases ha : user id with
  | ok link =>
    rw [ha, UserOutcome.ofAnswer] at h
    split at h <;> cases h
  | error reason =>
    rw [ha] at h
    obtain rfl := Option.some.inj h
    exact Problem.nulFree_of_reason rfl (huser id _ ha)

/-- Only the id part of a mention that is not valid can bring a NUL into a report. -/
theorem nulFree_transcript_iff (hfile : ∀ id reason, file id = .error reason → '\x00' ∉ reason)
    (huser : ∀ id reason, user id = .error reason → '\x00' ∉ reason) {source : Text}
    {r : Resolution} (hr : resolve source = .ok r) :
    (∀ p ∈ (r.transcript file user .empty).problems, p.NulFree) ↔
      ∀ x ∈ r.mentions, x.2 = none → '\x00' ∉ x.1.opener.content := by
  obtain ⟨-, hfiles, -, -⟩ := resolve_eq_ok hr
  have hproblems : (r.transcript file user .empty).problems = r.files.filterMap unnumbered? ++
      (r.fileOutcomes file).filterMap (fun x => x.2.bind FileOutcome.problem?) ++
      r.mentions.filterMap invalid? ++
      (r.userOutcomes user).filterMap fun x => x.2.bind UserOutcome.problem? := rfl
  rw [hproblems]
  constructor
  · rintro h ⟨m, id⟩ hx (rfl : id = none)
    refine Problem.nulFree_invalidMention.mp (h _ ?_)
    refine List.mem_append_left _ (List.mem_append_right _ ?_)
    exact List.mem_filterMap.mpr ⟨_, hx, rfl⟩
  · intro h p hp
    simp only [List.mem_append, List.mem_filterMap] at hp
    rcases hp with ((⟨⟨tag, id⟩, hx, hp⟩ | ⟨⟨tag, o⟩, hx, hp⟩) | ⟨⟨m, id⟩, hx, hp⟩) |
      ⟨⟨m, o⟩, hx, hp⟩
    · cases id with
      | some id => cases hp
      | none =>
        obtain rfl := Option.some.inj hp
        exact Problem.nulFree_unnumberedFile (nul_notMem_fileTag (mem_hits_of_fileTags hfiles hx))
    · obtain ⟨⟨tag', id⟩, -, he⟩ := List.mem_map.mp hx
      obtain ⟨-, rfl⟩ := Prod.mk.inj he
      cases id with
      | none => cases hp
      | some id => exact FileOutcome.nulFree_problem hfile hp
    · cases id with
      | some id => cases hp
      | none =>
        obtain rfl := Option.some.inj hp
        exact Problem.nulFree_invalidMention.mpr (h _ hx rfl)
    · obtain ⟨⟨m', id⟩, -, he⟩ := List.mem_map.mp hx
      obtain ⟨-, rfl⟩ := Prod.mk.inj he
      cases id with
      | none => cases hp
      | some id => exact UserOutcome.nulFree_problem huser hp

/-- A body without NULs is converted without NULs, in the result and in the reports,
exactly if no token is misread, or all that is left of such tokens is dropped, and if no
mention with an invalid id has a token in its id part. -/
theorem convert_nulFree_iff {source : Text} (hs : '\x00' ∉ source)
    (hfile : ∀ id reason, file id = .error reason → '\x00' ∉ reason)
    (huser : ∀ id reason, user id = .error reason → '\x00' ∉ reason)
    {r : Resolution} (hr : resolve source = .ok r) :
    ∃ html log, convert (.recording file user) source .empty = .ok (html, log) ∧
      (('\x00' ∉ html ∧ ∀ p ∈ log.problems, p.NulFree) ↔
        (r.tags.ReadsBack (r.escaped file user) ∨
          OnlyDropsNuls (renderInline (flattenBlocks (r.restored file user)))) ∧
        ∀ x ∈ r.mentions, x.2 = none → '\x00' ∉ x.1.opener.content) := by
  refine ⟨_, _, by rw [convert_recording, hr]; rfl, ?_⟩
  obtain ⟨htags, -, -, -⟩ := resolve_eq_ok hr
  have hlabel : r.tags.label = emptyTags.label := by
    rw [htags]
    exact Stash.label_stowPieces ..
  have hback : '\x00' ∉ r.restored file user ↔ r.tags.ReadsBack (r.escaped file user) := by
    refine Stash.nul_notMem_putBack_iff _ ?_ ?_
    · rw [hlabel]
      decide
    · rw [hlabel, htags]
      exact opaque_stashTags hs
  have hdrops : '\x00' ∉ r.restored file user →
      OnlyDropsNuls (renderInline (flattenBlocks (r.restored file user))) := by
    intro h
    have hzero : (renderInline (flattenBlocks (r.restored file user))).count '\x00' = 0 := by
      rw [List.count_eq_zero, nul_mem_renderInline,
        nul_mem_iff_of_only_eq (only_flattenBlocks foreign_nul _)]
      exact h
    have hcount := count_unwrapUnsupported (renderInline (flattenBlocks (r.restored file user)))
    unfold OnlyDropsNuls
    omega
  rw [nulFree_transcript_iff hfile huser hr, nul_notMem_finish_iff, ← hback]
  exact and_congr_left' ⟨.inr, fun h => h.elim hdrops id⟩

end

/-- Text that spells the token in front of it is read back. -/
theorem convert_nulFree_of_tokenBefore :
    '\x00' ∉ "[B]TAG0[/B]".toList ∧
      ∃ html log, convert (.recording findNothing knowNobody) "[B]TAG0[/B]".toList .empty =
        .ok (html, log) ∧ '\x00' ∉ html ∧ ∀ p ∈ log.problems, p.NulFree := by
  let tags : Stash := ⟨"TAG".toList, ["[B]".toList, "[/B]".toList]⟩
  let r : Resolution := ⟨tags, [], [], "\x00TAG0\x00TAG0\x00TAG1\x00".toList⟩
  have hs : '\x00' ∉ "[B]TAG0[/B]".toList := by decide
  have hr : resolve "[B]TAG0[/B]".toList = .ok r := by decide +kernel
  have hfields : (Text.fields (r.escaped findNothing knowNobody)).2 =
      weave "TAG".toList [(0, "TAG0".toList), (1, [])] := by decide +kernel
  have hclear : Clear "TAG".toList 2 2 [] [(0, "TAG0".toList), (1, [])] :=
    ⟨by decide, by decide, by decide, by decide, trivial⟩
  have hfirst : (Text.fields (r.escaped findNothing knowNobody)).1 = [] := by decide +kernel
  obtain ⟨html, log, hconvert, hiff⟩ := @convert_nulFree_iff findNothing knowNobody _ hs
    (fun id reason h => by cases h)
      (fun id reason h => by rw [eq_tooLong_of_knowNobody h]; decide +kernel) _ hr
  refine ⟨hs, html, log, hconvert, hiff.mpr ⟨.inl ⟨_, hfields, ?_⟩, fun x hx => ?_⟩⟩
  · rw [hfirst]
    exact hclear
  · cases hx

/-- Text that spells the token after it is misread. -/
theorem exists_nul_mem_convert_of_tokenAfter :
    '\x00' ∉ "[B]TAG1[I]".toList ∧
      ∃ html log, convert (.recording findNothing knowNobody) "[B]TAG1[I]".toList .empty =
        .ok (html, log) ∧ '\x00' ∈ html := by
  refine ⟨by decide, "\x00TAG0[I]TAG1\x00".toList, .empty, ?_, by decide⟩
  decide +kernel

/-- A file's token in the id part of a mention is reported as it is. -/
example : convert (.recording findNothing knowNobody) "[USER=[DISK FILE ID=5]]x[/USER]".toList
    .empty = .ok (['x'], ⟨[5], [], [.missingFile 5, .invalidMention "\x00HTML0\x00".toList]⟩) := by
  decide +kernel

end Bracket

end TaskBulletin
