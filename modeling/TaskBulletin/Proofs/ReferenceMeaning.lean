import TaskBulletin.Proofs.Leftover
import TaskBulletin.Proofs.ReferenceTokens

/-!
# What a body of text and references is converted to

Every reference has its fragment at the number of its token. The fragment of a file holds
no token, that of a mention shown by its label holds the tokens of the files in the label,
which were recorded before. So putting the fragments back, newest first, gives the meaning
of the body, as long as no stretch between two references spells a token.
-/

namespace TaskBulletin

namespace Bracket

open Pattern

/-! ## The fragment of a reference -/

section

variable {α β γ : Type} {g : α → Option β} {f : α → β → γ}

theorem length_filterMap_map (l : List α) :
    (l.filterMap fun a => (g a).map (f a)).length = (l.filter fun a => (g a).isSome).length := by
  induction l with
  | nil => rfl
  | cons a l ih => cases hg : g a <;> simp [hg, ih]

theorem getElem?_idxOf_filterMap [DecidableEq α] {l : List α} {a : α} {b : β} (ha : a ∈ l)
    (hb : g a = some b) :
    (l.filterMap fun a => (g a).map (f a))[(l.filter fun a => (g a).isSome).idxOf a]? =
      some (f a b) := by
  induction l with
  | nil => cases ha
  | cons c l ih =>
    by_cases hc : c = a
    · subst hc
      simp [hb]
    · have ih := ih ((List.mem_cons.mp ha).resolve_left (Ne.symm hc))
      cases hg : g c with
      | none => simpa [hg] using ih
      | some d => simpa [hg, List.idxOf_cons_ne _ hc] using ih

end

section

variable {d : List Passage}

theorem references_passages (d : List Passage) :
    (resolution (d.flatMap Passage.source)).references =
      ((fileTag.hits (d.flatMap Passage.source)).eraseDups.filterMap fun tag =>
          (fileNumber? tag.content).map (Reference.file tag)) ++
        (foundMentions d).map fun m => Reference.mention m (userNumber? m.opener.content) := by
  rw [resolution_passages, Resolution.references, tagsWithIds, mentionsWithIds, List.filterMap_map,
    List.map_map]
  rfl

theorem length_references_files (d : List Passage) :
    ((fileTag.hits (d.flatMap Passage.source)).eraseDups.filterMap fun tag =>
      (fileNumber? tag.content).map (Reference.file tag)).length = (foundTags d).length :=
  length_filterMap_map _

theorem reference_of_file {tag : FileTag} (htag : tag ∈ foundTags d) {id : Nat}
    (hid : fileNumber? tag.content = some id) :
    (resolution (d.flatMap Passage.source)).references[(foundTags d).idxOf tag]? =
      some (.file tag id) := by
  have hlt := List.idxOf_lt_length_of_mem htag
  rw [← length_references_files] at hlt
  rw [references_passages, List.getElem?_append_left hlt]
  exact getElem?_idxOf_filterMap (List.mem_of_mem_filter htag) hid

theorem reference_of_mention {x : Mention} (hx : x ∈ foundMentions d) :
    (resolution (d.flatMap Passage.source)).references[(foundTags d).length +
      (foundMentions d).idxOf x]? =
      some (.mention x (userNumber? x.opener.content)) := by
  rw [references_passages, ← length_references_files,
    List.getElem?_append_right (Nat.le_add_right ..),
    Nat.add_sub_cancel_left, List.getElem?_map, List.getElem?_idxOf hx, Option.map_some]

end

section

variable (files : Int → Except Text (Option DiskFile)) (users : Int → Except Text Text)

theorem FileMark.html_eq {mark : FileMark} {id : Nat} (h : mark.number? = some id) :
    mark.html files = (FileOutcome.ofAnswer id (files id)).html := by
  simp only [html, h]
  cases files id with
  | error reason => rfl
  | ok answer => cases answer <;> rfl

theorem UserMark.blank_label (found : List FileTag) (m : UserMark) :
    Text.blank (m.label.flatMap (Snippet.stood found)) = m.isBlank := by
  have hsnippet (s : Snippet) : Text.blank (s.stood found) = Text.blank s.source := by
    cases s with
    | text run => rfl
    | file mark =>
      have hsource : Text.blank mark.source = false := by
        rw [mark.source_eq_cons]
        rfl
      have htoken (k : Nat) : Text.blank (emptyFragments.token k) = false := rfl
      rw [Snippet.stood, Snippet.tag?, Segments.exchanged]
      split
      · exact (htoken _).trans hsource.symm
      · rfl
  rw [isBlank]
  simp only [Text.blank, List.all_flatMap] at hsnippet ⊢
  simp only [hsnippet]

/-- The fragment of a mention is what stands in place of its label, or the escaped label. -/
theorem UserMark.fragment_eq (found : List FileTag) (m : UserMark) :
    (Reference.mention (m.toMention found) m.number?).fragment files users =
      match m.instead? users with
      | some t => t
      | none => Html.escape (m.label.flatMap (Snippet.stood found)) := by
  have hcontent : (m.toMention found).content = m.label.flatMap (Snippet.stood found) := rfl
  rw [instead?]
  cases m.number? with
  | none => rfl
  | some id =>
    simp only [Reference.fragment, Option.map_some, mentionFragment]
    cases users id with
    | error reason =>
      simp only [UserOutcome.ofAnswer, UserOutcome.html, hcontent, m.blank_label found]
      cases m.isBlank <;> rfl
    | ok link =>
      have hid : Text.ofInt (id : Int) = Text.ofNat id := rfl
      by_cases hlink : link ≠ [] ∧ link ≠ Text.ofNat id
      · have hnot : (link.isEmpty || link == Text.ofInt (id : Int)) = false := by
          simpa [hid] using hlink
        simp only [UserOutcome.ofAnswer, hnot, if_pos hlink, UserOutcome.html, Bool.false_eq_true,
          if_false]
      · have hunknown : (link.isEmpty || link == Text.ofInt (id : Int)) = true := by
          rw [hid]
          by_contra h
          exact hlink (by simpa using h)
        simp only [UserOutcome.ofAnswer, hunknown, if_neg hlink, UserOutcome.html, if_true,
          hcontent, m.blank_label found]
        cases m.isBlank <;> rfl

end

/-! ## Characters and tokens of a passage -/

def Snippet.pieces (found : List FileTag) : Snippet → List (Piece Nat)
  | text run => (Html.escape run.text).map .plain
  | file mark => if mark.tag ∈ found then [.hit (found.idxOf mark.tag)] else mark.source.map .plain

theorem escape_token (k : Nat) : Html.escape (emptyFragments.token k) = emptyFragments.token k :=
  escape_eq_self (Stash.notMem_token (by decide) (by decide) (by decide) k)
    (Stash.notMem_token (by decide) (by decide) (by decide) k)
    (Stash.notMem_token (by decide) (by decide) (by decide) k)

theorem Snippet.escape_stood (found : List FileTag) (s : Snippet) :
    Html.escape (s.stood found) = writeWith emptyFragments.token (s.pieces found) := by
  cases s with
  | text run => exact (writeWith_map_plain _ _).symm
  | file mark =>
    have hsource : Html.escape mark.source = mark.source :=
      escape_eq_self (mark.notMem_source (by decide)) (mark.notMem_source (by decide))
        (mark.notMem_source (by decide))
    rw [stood, tag?, Segments.exchanged, pieces]
    split
    · rw [escape_token, writeWith, writeWith, List.append_nil]
    · rw [writeWith_map_plain]
      exact hsource

theorem escape_flatMap {α : Type} (f : α → Text) (xs : List α) :
    Html.escape (xs.flatMap f) = xs.flatMap fun x => Html.escape (f x) :=
  List.flatMap_assoc

theorem writeWith_flatMap {α β : Type} (g : β → Text) (f : α → List (Piece β)) (xs : List α) :
    writeWith g (xs.flatMap f) = xs.flatMap fun x => writeWith g (f x) := by
  induction xs with
  | nil => rfl
  | cons x xs ih => rw [List.flatMap_cons, List.flatMap_cons, writeWith_append, ih]

def Passage.pieces (d : List Passage) : Passage → List (Piece Nat)
  | snippet s => s.pieces (foundTags d)
  | mention m => [.hit ((foundTags d).length + (foundMentions d).idxOf (m.toMention (foundTags d)))]

theorem escape_tokened (d : List Passage) :
    Html.escape (d.flatMap (Passage.tokened d)) =
      writeWith emptyFragments.token (d.flatMap (Passage.pieces d)) := by
  rw [escape_flatMap, writeWith_flatMap]
  refine List.flatMap_congr fun p _ => ?_
  cases p with
  | snippet s => exact s.escape_stood _
  | mention m =>
    rw [Passage.tokened, Passage.pieces, escape_token, writeWith, writeWith, List.append_nil]

/-! ## What the tokens show -/

section

variable {files : Int → Except Text (Option DiskFile)} {users : Int → Except Text Text}
  {d : List Passage}

/-- What a token shows: a file, or a mention by its label or by what stands in its place. -/
inductive ShownFor (files : Int → Except Text (Option DiskFile)) (users : Int → Except Text Text)
    (d : List Passage) : Nat → List Sign → Prop
  | file {p : Passage} {mark : FileMark} : p ∈ d → mark ∈ p.marks → mark.tag ∈ foundTags d →
    ShownFor files users d ((foundTags d).idxOf mark.tag) ((mark.html files).map .char)
  | mention {m : UserMark} : .mention m ∈ d →
    ShownFor files users d
      ((foundTags d).length + (foundMentions d).idxOf (m.toMention (foundTags d)))
      (m.inner files users)

/-- The lookups supply no NUL. -/
def NulFree (files : Int → Except Text (Option DiskFile)) (users : Int → Except Text Text)
    (d : List Passage) : Prop :=
  ∀ p ∈ d, ∀ t ∈ p.supplied files users, '\x00' ∉ t

theorem mem_foundTags_iff {p : Passage} (hp : p ∈ d) {mark : FileMark} (hm : mark ∈ p.marks) :
    mark.tag ∈ foundTags d ↔ mark.number?.isSome = true := by
  rw [foundTags, numberedTags, List.mem_filter, List.mem_eraseDups]
  exact and_iff_right (mem_hits_fileTag_iff.mpr ⟨p, hp, mark, hm, rfl⟩)

theorem nul_notMem_escape {t : Text} (ht : '\x00' ∉ t) : '\x00' ∉ Html.escape t := by
  intro hm
  rcases Html.mem_escape hm with hm | hm
  · exact ht hm
  · exact absurd hm (by decide)

theorem nul_notMem_ofNat (n : Nat) : '\x00' ∉ Text.ofNat n := notMem_ofNat (by decide) n

theorem nul_notMem_anchor {url name : Text} (hu : '\x00' ∉ url) (hn : '\x00' ∉ name) :
    '\x00' ∉ Html.anchor url name := by
  rw [Html.anchor, Html.escapeValue, nul_mem_anchorRaw, nul_mem_escapeDoubleQuotes, not_or]
  exact ⟨nul_notMem_escape hu, nul_notMem_escape hn⟩

theorem supplied_of_mem {p : Passage} {mark : FileMark} (hm : mark ∈ p.marks) {t : Text}
    (ht : t ∈ mark.supplied files) : t ∈ p.supplied files users :=
  List.mem_append_left _ (List.mem_flatMap.mpr ⟨mark, hm, ht⟩)

theorem NulFree.notMem_file (h : NulFree files users d) {p : Passage} (hp : p ∈ d) {mark : FileMark}
    (hm : mark ∈ p.marks) : '\x00' ∉ mark.html files := by
  have hsupplied (t : Text) (ht : t ∈ mark.supplied files) : '\x00' ∉ t :=
    h p hp t (supplied_of_mem hm ht)
  rcases mark.html_cases files with he | ⟨file, hfile, he⟩ | ⟨id, he | he⟩ <;> rw [he]
  · exact mark.notMem_source (by decide)
  · rw [hfile] at hsupplied
    exact nul_notMem_anchor (hsupplied _ (by simp)) (hsupplied _ (by simp))
  · simp [nul_notMem_ofNat]
  · simp [nul_notMem_ofNat]

theorem NulFree.notMem_instead (h : NulFree files users d) {m : UserMark} (hm : .mention m ∈ d)
    {t : Text} (ht : m.instead? users = some t) : '\x00' ∉ t := by
  rcases UserMark.instead?_cases ht with hlink | ⟨id, rfl | rfl⟩
  · exact h _ hm t (List.mem_append_right _ hlink)
  · exact nul_notMem_ofNat id
  · simp [nul_notMem_ofNat]

theorem Snippet.shows {s : Snippet} (hs : ∀ mark ∈ s.marks, ∃ p ∈ d, mark ∈ p.marks) :
    Shows (ShownFor files users d) (s.pieces (foundTags d)) (s.signs files) := by
  cases s with
  | text run => exact .of_text (nul_notMem_escape fun hm => (run.plain _ hm).2.2 rfl)
  | file mark =>
    obtain ⟨p, hp, hm⟩ := hs mark (List.mem_cons_self ..)
    have hiff := mem_foundTags_iff hp hm
    rw [pieces, signs]
    cases hn : mark.number? with
    | none =>
      have hnot : mark.tag ∉ foundTags d := by simp [hiff, hn]
      rw [if_neg hnot]
      exact .of_text (mark.notMem_source (by decide))
    | some id =>
      have hmem : mark.tag ∈ foundTags d := by simp [hiff, hn]
      rw [if_pos hmem]
      exact .token (.file hp hm hmem) .nil

theorem UserMark.shows_label {m : UserMark} (hm : .mention m ∈ d) :
    Shows (ShownFor files users d) (m.label.flatMap (Snippet.pieces (foundTags d)))
      (m.label.flatMap (Snippet.signs files)) :=
  .flatMap fun s hs => s.shows fun _ hmark =>
    ⟨.mention m, hm, List.mem_flatMap.mpr ⟨s, hs, hmark⟩⟩

theorem Passage.shows {p : Passage} (hp : p ∈ d) :
    Shows (ShownFor files users d) (p.pieces d) (p.signs files users) := by
  cases p with
  | snippet s => exact s.shows fun _ hm => ⟨_, hp, hm⟩
  | mention m => exact .token (.mention hp) .nil

theorem Snippet.under (found : List FileTag) (s : Snippet) :
    Under found.length (s.pieces found) := by
  intro k hk
  cases s with
  | text run =>
    obtain ⟨c, -, hc⟩ := List.mem_map.mp hk
    cases hc
  | file mark =>
    rw [pieces] at hk
    split at hk
    · obtain rfl := Piece.hit.inj (List.mem_singleton.mp hk)
      exact List.idxOf_lt_length_of_mem ‹_›
    · obtain ⟨c, -, hc⟩ := List.mem_map.mp hk
      cases hc

theorem under_pieces (d : List Passage) :
    Under ((foundTags d).length + (foundMentions d).length) (d.flatMap (Passage.pieces d)) := by
  intro k hk
  obtain ⟨p, hp, hk⟩ := List.mem_flatMap.mp hk
  cases p with
  | snippet s =>
    have := s.under (foundTags d) k hk
    omega
  | mention m =>
    obtain rfl := Piece.hit.inj (List.mem_singleton.mp hk)
    have := List.idxOf_lt_length_of_mem (toMention_mem_foundMentions hp)
    omega

theorem meant_fragments (h : NulFree files users d) :
    ((resolution (d.flatMap Passage.source)).fragments files users).Meant id
      (ShownFor files users d) := by
  intro k fragment hk inner hshown
  have htoken : ((resolution (d.flatMap Passage.source)).fragments files users).token =
      emptyFragments.token := rfl
  rw [Resolution.fragments_eq, List.getElem?_map] at hk
  rw [htoken, id]
  cases hshown with
  | @file p mark hp hm htag =>
    obtain ⟨id, hid⟩ := Option.isSome_iff_exists.mp ((mem_foundTags_iff hp hm).mp htag)
    rw [reference_of_file htag hid] at hk
    obtain rfl := Option.some.inj hk
    obtain ⟨qs, hwrite, hqs⟩ := Shows.exists_of_text (h.notMem_file hp hm) _ _
    exact ⟨qs, hwrite.trans (mark.html_eq files hid), hqs⟩
  | @mention m hm =>
    rw [reference_of_mention (toMention_mem_foundMentions hm)] at hk
    obtain rfl := Option.some.inj hk
    have hfragment := m.fragment_eq files users (foundTags d)
    rw [UserMark.inner]
    cases hi : m.instead? users with
    | some t =>
      rw [hi] at hfragment
      obtain ⟨qs, hwrite, hqs⟩ := Shows.exists_of_text (h.notMem_instead hm hi) _ _
      exact ⟨qs, hwrite.trans hfragment.symm, hqs⟩
    | none =>
      rw [hi] at hfragment
      refine ⟨m.label.flatMap (Snippet.pieces (foundTags d)), ?_, UserMark.shows_label hm,
        fun j hj => ?_⟩
      · rw [writeWith_flatMap]
        refine Eq.trans ?_ hfragment.symm
        rw [escape_flatMap]
        exact List.flatMap_congr fun s _ => (s.escape_stood _).symm
      · obtain ⟨s, -, hs⟩ := List.mem_flatMap.mp hj
        have := s.under (foundTags d) j hs
        omega

variable (files users) in
theorem size_fragments : ((resolution (d.flatMap Passage.source)).fragments files users).size =
    (foundTags d).length + (foundMentions d).length := by
  rw [Stash.size, Resolution.fragments_eq, List.length_map, references_passages, List.length_append,
    length_references_files, List.length_map]

/-- With its fragments back, a body is what it means. -/
theorem restored_passages (h : NulFree files users d)
    (hap : Apart "HTML".toList (d.flatMap (Passage.signs files users))) :
    (resolution (d.flatMap Passage.source)).restored files users =
      d.flatMap (Passage.html files users) := by
  have hshows : Shows (ShownFor files users d) (d.flatMap (Passage.pieces d))
      (d.flatMap (Passage.signs files users)) := .flatMap fun p hp => p.shows hp
  have hlabel : '\x00' ∉ emptyFragments.label := by decide
  have hunder := under_pieces d
  rw [← size_fragments files users] at hunder
  have hback :=
    Stash.putBack_of_shows ((resolution (d.flatMap Passage.source)).fragments files users)
    hlabel (meant_fragments h) hshows hunder hap
  have hshown : Sign.text (d.flatMap (Passage.signs files users)) =
      d.flatMap (Passage.html files users) := by
    rw [Sign.text_flatMap]
    exact List.flatMap_congr fun p _ => p.text_signs files users
  have htags : (resolution (d.flatMap Passage.source)).tags = emptyTags := by
    rw [resolution_passages]
  have htext : (resolution (d.flatMap Passage.source)).text = d.flatMap (Passage.tokened d) := by
    rw [resolution_passages]
  rw [Resolution.restored, htags, Resolution.escaped, escapeAround, htext, escape_tokened, ← hshown]
  exact hback

/-- The rules of the markup are applied to what a body means. -/
theorem convert_passages (hnumerals : ∀ p ∈ d, ∀ digits ∈ p.numerals, digits.length ≤ 4300)
    (h : NulFree files users d)
    (hap : Apart "HTML".toList (d.flatMap (Passage.signs files users))) :
    (convert (.recording files users) (d.flatMap Passage.source) .empty).map Prod.fst =
      .ok (finish (d.flatMap (Passage.html files users))) := by
  rw [convert_recording, resolve_of_readable (readableIds_passages_iff.mpr hnumerals),
    ← restored_passages h hap]
  rfl

/-! ## What no rule changes -/

/-- The rule finds no element of its kind in the text. -/
def Rule.FindsNothing (t : Text) : Rule → Prop
  | style s => s.pattern.hits t = []
  | targeted => targetedLink.hits t = []
  | bare => plainLink.hits t = []
  | image => (paired "IMG".toList).hits t = []
  | color => (pairedWithValue "COLOR".toList).hits t = []
  | size => (pairedWithValue "SIZE".toList).hits t = []

/-- There is no list, no paragraph and no inline element in the text. -/
structure WithoutElements (t : Text) : Prop where
  numbered : numberedList.hits t = []
  bullets : bulletList.hits t = []
  paragraphs : paragraph.hits t = []
  inline : ∀ r : Rule, r.FindsNothing t

theorem WithoutElements.applyRules_eq {t : Text} (h : WithoutElements t) : applyRules t = t := by
  have hblocks : flattenBlocks t = t := by
    rw [flattenBlocks, rewrite_of_hits_eq_nil h.numbered, rewrite_of_hits_eq_nil h.bullets,
      rewrite_of_hits_eq_nil h.paragraphs]
  have hrule (r : Rule) : r.apply t = t := by
    cases r with
    | style s => exact rewrite_of_hits_eq_nil (h.inline (.style s)) _
    | targeted => exact rewrite_of_hits_eq_nil (h.inline .targeted) _
    | bare => exact rewrite_of_hits_eq_nil (h.inline .bare) _
    | image => exact rewrite_of_hits_eq_nil (h.inline .image) _
    | color => exact rewrite_of_hits_eq_nil (h.inline .color) _
    | size => exact rewrite_of_hits_eq_nil (h.inline .size) _
  have hinline : unwrapUnsupported (renderInline t) = Rule.order.foldl (fun t r => r.apply t) t :=
    rfl
  rw [applyRules, hblocks, hinline, List.foldl_fixed' hrule]

/-- The rules find nothing in a text in which no opening bracket is read with what may be in a
passage's meaning: the D of a file tag, or the first letter of a notice. -/
theorem withoutElements_of_silent {t : Text}
    (h : ∀ x w, (∀ c ∈ "DdEF".toList, Text.spells x c = false) →
      (word ('[' :: x :: w)).Silent t) : WithoutElements t where
  numbered := hits_of_silent ((h 'L' "IST=1]".toList (by decide)).between _ _)
  bullets := hits_of_silent ((h 'L' "IST]".toList (by decide)).between _ _)
  paragraphs := hits_of_silent ((h 'P' "]".toList (by decide)).between _ _)
  inline r := by
    cases r with
    | style s => cases s <;> exact hits_of_silent ((h _ _ (by decide)).between _ _)
    | targeted => exact hits_of_silent (((h 'U' "RL=".toList (by decide)).between _ _).between _ _)
    | bare => exact hits_of_silent ((h 'U' "RL]".toList (by decide)).between _ _)
    | image => exact hits_of_silent ((h 'I' "MG]".toList (by decide)).between _ _)
    | color => exact hits_of_silent (((h 'C' "OLOR=".toList (by decide)).between _ _).between _ _)
    | size => exact hits_of_silent (((h 'S' "IZE=".toList (by decide)).between _ _).between _ _)

/-- The lookups supply no square brackets. -/
def BracketFree (files : Int → Except Text (Option DiskFile)) (users : Int → Except Text Text)
    (d : List Passage) : Prop :=
  ∀ p ∈ d, ∀ t ∈ p.supplied files users, '[' ∉ t

section

variable {x : Char} (hx : ∀ c ∈ "DdEF".toList, Text.spells x c = false) (w : Text)
include hx

theorem silent_word_notice {first : Char} (hfirst : first ∈ "DdEF".toList) {before : Text}
    (hb : '[' ∉ first :: before) (id : Nat) {after : Text} (ha : '[' ∉ after) :
    (word ('[' :: x :: w)).Silent ('[' :: first :: before ++ Text.ofNat id ++ after) := by
  refine silent_word_of_not_spells (hx first hfirst) w fun hm => ?_
  change '[' ∈ (first :: before ++ Text.ofNat id) ++ after at hm
  obtain hm | hm := List.mem_append.mp hm
  · obtain hm | hm := List.mem_append.mp hm
    · exact hb hm
    · exact notMem_ofNat (by decide) id hm
  · exact ha hm

theorem silent_word_file (h : BracketFree files users d) {p : Passage} (hp : p ∈ d)
    {mark : FileMark} (hm : mark ∈ p.marks) : (word ('[' :: x :: w)).Silent (mark.html files) := by
  have hsupplied (t : Text) (ht : t ∈ mark.supplied files) : '[' ∉ t :=
    h p hp t (supplied_of_mem hm ht)
  have herror : "[Error loading file ".toList = '[' :: 'E' :: "rror loading file ".toList := by
    decide
  have hmissing : "[File ".toList = '[' :: 'F' :: "ile ".toList := by decide
  rcases mark.html_cases files with he | ⟨file, hfile, he⟩ | ⟨id, he | he⟩ <;> rw [he]
  · exact mark.silent_word ⟨hx 'D' (by decide), hx 'd' (by decide)⟩ w
  · rw [hfile] at hsupplied
    have hurl : '[' ∉ Html.escapeValue file.url := fun hm =>
      (Html.mem_escapeDoubleQuotes hm).elim (bracket_notMem_escape (hsupplied _ (by simp)))
        (by decide)
    have hname : '[' ∉ Html.escape file.name := bracket_notMem_escape (hsupplied _ (by simp))
    exact (begins_word _).silent (bracket_notMem_anchorRaw hurl hname)
  · rw [hmissing]
    exact silent_word_notice hx w (by decide) (by decide) id (by decide)
  · rw [herror]
    exact silent_word_notice hx w (by decide) (by decide) id (by decide)

theorem silent_word_snippet (h : BracketFree files users d) {p : Passage} (hp : p ∈ d) {s : Snippet}
    (hs : s.marks ⊆ p.marks) : (word ('[' :: x :: w)).Silent (s.html files) := by
  cases s with
  | text run => exact (begins_word _).silent (bracket_notMem_escape run.bracket_notMem)
  | file mark => exact silent_word_file hx w h hp (hs (List.mem_cons_self ..))

theorem silent_word_mention (h : BracketFree files users d) {m : UserMark} (hm : .mention m ∈ d) :
    (word ('[' :: x :: w)).Silent (m.html files users) := by
  have herror : "[Error loading user ".toList = '[' :: 'E' :: "rror loading user ".toList := by
    decide
  rw [UserMark.html]
  cases hi : m.instead? users with
  | none =>
    exact silent_flatMap fun s hs => silent_word_snippet hx w h hm
      fun mark hmark => List.mem_flatMap.mpr ⟨s, hs, hmark⟩
  | some t =>
    rcases UserMark.instead?_cases hi with hlink | ⟨id, rfl | rfl⟩
    · exact (begins_word _).silent (h _ hm t (List.mem_append_right _ hlink))
    · exact (begins_word _).silent (notMem_ofNat (by decide) id)
    · rw [herror]
      exact silent_word_notice hx w (by decide) (by decide) id (by decide)

theorem silent_word_passage (h : BracketFree files users d) {p : Passage} (hp : p ∈ d) :
    (word ('[' :: x :: w)).Silent (p.html files users) := by
  cases p with
  | snippet s => exact silent_word_snippet hx w h hp (List.Subset.refl _)
  | mention m => exact silent_word_mention hx w h hp

end

variable (files users) in
/-- A body of text, file tags and mentions is converted to what it means: if no numeral is too long
to be read, the lookups supply neither square brackets nor NULs, and nothing between two references
spells a token. -/
theorem convert_references (d : List Passage)
    (hnumerals : ∀ p ∈ d, ∀ digits ∈ p.numerals, digits.length ≤ 4300)
    (hsupplied : ∀ p ∈ d, ∀ t ∈ p.supplied files users, ∀ c ∈ t, c ≠ '[' ∧ c ≠ ']' ∧ c ≠ '\x00')
    (hap : Apart "HTML".toList (d.flatMap (Passage.signs files users))) :
    (convert (.recording files users) (d.flatMap Passage.source) .empty).map Prod.fst =
      .ok (Text.normalizeSpacing (d.flatMap (Passage.html files users))) := by
  have hnul : NulFree files users d := fun p hp t ht hm => (hsupplied p hp t ht _ hm).2.2 rfl
  have hbracket : BracketFree files users d := fun p hp t ht hm => (hsupplied p hp t ht _ hm).1 rfl
  have hwithout : WithoutElements (d.flatMap (Passage.html files users)) :=
    withoutElements_of_silent fun x w hx => silent_flatMap fun p hp =>
      silent_word_passage hx w hbracket hp
  rw [convert_passages hnumerals hnul hap, finish_eq, hwithout.applyRules_eq]

end

def oneFile : Int → Except Text (Option DiskFile) := fun id =>
  if id = 5 then .ok (some ⟨id, "a&b".toList, "/d?x".toList⟩)
  else if id = 6 then .error "late".toList else .ok none

def oneUser : Int → Except Text Text := fun id =>
  if id = 7 then .ok "<a>".toList else if id = 8 then .error "late".toList else .ok []

/-- The tags of the files 5, 6 and 9, and one without a number. -/
def markOf (id : Fin 4) : FileMark :=
  .ofPart (["5".toList, "n6".toList, "٩".toList, "x".toList].get id)
    (by revert id; decide) (by revert id; decide +kernel)

def userWord : Spelled "USER".toList := ⟨"User".toList, by decide⟩

/-- Files and mentions that are known, unknown and late, one file in the label of a mention. -/
def handover : List Passage := [
  .snippet (.text ⟨"a<".toList, by decide⟩), .snippet (.file (markOf 0)),
  .mention ⟨userWord, ⟨"7".toList, by decide⟩, [.file (markOf 1)], userWord, by simp⟩,
  .mention ⟨userWord, ⟨"8".toList, by decide⟩, [.text ⟨"see ".toList, by decide⟩, .file (markOf 1)],
    userWord,
    by simp⟩,
  .mention ⟨userWord, ⟨"8".toList, by decide⟩, [], userWord, by simp⟩,
  .mention ⟨userWord, ⟨"9".toList, by decide⟩, [], userWord, by simp⟩,
  .snippet (.file (markOf 2)), .snippet (.file (markOf 3))]

theorem convert_references_handover :
    (∀ p ∈ handover, ∀ digits ∈ p.numerals, digits.length ≤ 4300) ∧
    (∀ p ∈ handover, ∀ t ∈ p.supplied oneFile oneUser, ∀ c ∈ t, c ≠ '[' ∧ c ≠ ']' ∧ c ≠ '\x00') ∧
    Apart "HTML".toList (handover.flatMap (Passage.signs oneFile oneUser)) ∧
    (convert (.recording oneFile oneUser) (handover.flatMap Passage.source) .empty).map Prod.fst =
      .ok ("a&lt;<a href=\"/d?x\">a&amp;b</a><a>see [Error loading file 6]".toList ++
        "[Error loading user 8]9[File 9 not found][DISK FILE ID=x]".toList) := by
  have hnumerals : ∀ p ∈ handover, ∀ digits ∈ p.numerals, digits.length ≤ 4300 := by decide +kernel
  have hsupplied : ∀ p ∈ handover, ∀ t ∈ p.supplied oneFile oneUser, ∀ c ∈ t,
      c ≠ '[' ∧ c ≠ ']' ∧ c ≠ '\x00' := by decide +kernel
  have hap : Apart "HTML".toList (handover.flatMap (Passage.signs oneFile oneUser)) :=
    .of_notMem (c := 'H') (by decide) (by decide +kernel)
  refine ⟨hnumerals, hsupplied, hap, ?_⟩
  rw [convert_references oneFile oneUser handover hnumerals hsupplied hap]
  decide +kernel

end Bracket

end TaskBulletin
