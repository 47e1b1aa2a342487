import TaskBulletin.Proofs.ReferenceDocument

/-!
# The tokens of a body of text and references

No tag of such a body is stashed: file tags are no bracket tags, and the tags of mentions
are spared. Its file tags are found first, and a token is put for each that has a number;
the mentions are found in that text, with tokens in their labels, and get the tokens that
follow.
-/

namespace TaskBulletin

namespace Bracket

open Pattern

/-! ## The stretches of a passage -/

inductive Stretch where
  | snippet (s : Snippet)
  | opener (m : UserMark)
  | closer (m : UserMark)

def Stretch.source : Stretch → Text
  | snippet s => s.source
  | opener m => m.openingTag
  | closer m => closingTag m.closer.text

def Passage.stretches : Passage → List Stretch
  | snippet s => [.snippet s]
  | mention m => .opener m :: (m.label.map .snippet ++ [.closer m])

theorem Passage.flatMap_stretches (p : Passage) :
    p.stretches.flatMap Stretch.source = p.source := by
  cases p with
  | snippet s => exact List.append_nil _
  | mention m =>
    simp [stretches, source, UserMark.source, Stretch.source, List.flatMap_map]

theorem flatMap_source (d : List Passage) :
    d.flatMap Passage.source = (d.flatMap Passage.stretches).flatMap Stretch.source := by
  rw [List.flatMap_assoc]
  exact List.flatMap_congr fun p _ => p.flatMap_stretches.symm

/-! ## Nothing is stashed -/

theorem always_anyTag {body : Text} (he : ']' ∉ body) (h : isTagBody body = true) :
    anyTag.Always ⟨['['], body, [']']⟩ := by
  intro rest
  have hspelled : anyTag.spelling ⟨['['], body, [']']⟩ ++ rest = '[' :: (body ++ ']' :: rest) := by
    change ['['] ++ body ++ [']'] ++ rest = _
    simp
  rw [hspelled]
  exact read_filter_eq_some_iff.mpr ⟨read_bracketed he rest, h⟩

theorem silent_anyTag {body : Text} (hb : '[' ∉ body) (he : ']' ∉ body)
    (h : isTagBody body = false) : anyTag.Silent ('[' :: (body ++ [']'])) := by
  refine begins_anyTag.silent_cons (by simpa using hb) fun rest => ?_
  have hread := read_bracketed he rest
  rw [List.append_assoc, List.singleton_append, anyTag, read_filter_of_read hread,
    if_neg (by simp [h])]

def Stretch.body? : Stretch → Option Text
  | snippet _ => none
  | opener m => some (m.opener.text ++ '=' :: m.idPart.text)
  | closer m => some ('/' :: m.closer.text)

theorem Stretch.source_of_body? {x : Stretch} {body : Text} (h : x.body? = some body) :
    x.source = '[' :: (body ++ [']']) ∧ '[' ∉ body ∧ ']' ∉ body ∧
      (isTagBody body = true → isMentionBody body = true) := by
  cases x with
  | snippet s => cases h
  | opener m =>
    obtain rfl := Option.some.inj h
    obtain ⟨d, t, hd, hcase⟩ := m.opener.exists_cons
    have hslash : dropSlash (m.opener.text ++ '=' :: m.idPart.text) =
        m.opener.text ++ '=' :: m.idPart.text := by
      rw [hd, List.cons_append]
      apply dropSlash_cons
      rcases hcase with rfl | rfl <;> decide
    have hnot {c : Char} (hc : c.toUpper ∉ Text.capitals) (heq : c ≠ '=')
        (hrun : c ∉ m.idPart.text) : c ∉ m.opener.text ++ '=' :: m.idPart.text := by
      rw [List.mem_append, List.mem_cons, not_or, not_or]
      exact ⟨m.opener.notMem hc, heq, hrun⟩
    refine ⟨?_, hnot (by decide) (by decide) m.idPart.bracket_notMem,
      hnot (by decide) (by decide) fun hm => (m.idPart.plain _ hm).2.1 rfl,
      m.opener.isMentionBody_of_isTagBody (.inr ⟨_, rfl⟩) hslash⟩
    simp [source, UserMark.openingTag, openingTag]
  | closer m =>
    obtain rfl := Option.some.inj h
    have hnot {c : Char} (hc : c.toUpper ∉ Text.capitals) (hs : c ≠ '/') :
        c ∉ '/' :: m.closer.text := by
      rw [List.mem_cons, not_or]
      exact ⟨hs, m.closer.notMem hc⟩
    refine ⟨rfl, hnot (by decide) (by decide), hnot (by decide) (by decide),
      m.closer.isMentionBody_of_isTagBody (.inl rfl) ?_⟩
    rw [List.append_nil]
    rfl

def Stretch.bracketTag? (x : Stretch) : Option (Span Text Text) :=
  x.body?.bind fun body => if isTagBody body then some ⟨['['], body, [']']⟩ else none

theorem Stretch.bracketTag?_eq_some {x : Stretch} {tag : Span Text Text}
    (h : x.bracketTag? = some tag) :
    ∃ body, x.body? = some body ∧ isTagBody body = true ∧ tag = ⟨['['], body, [']']⟩ := by
  obtain ⟨body, hbody, h⟩ := Option.bind_eq_some_iff.mp h
  split at h
  · rename_i ht
    exact ⟨body, hbody, ht, (Option.some.inj h).symm⟩
  · cases h

theorem Snippet.silent_anyTag (s : Snippet) : anyTag.Silent s.source := by
  cases s with
  | text run => exact begins_anyTag.silent run.bracket_notMem
  | file mark => exact mark.silent_anyTag

theorem segments_anyTag (xs : List Stretch) :
    anyTag.Segments Stretch.source Stretch.bracketTag? xs where
  spelled x _ tag h := by
    obtain ⟨body, hbody, -, rfl⟩ := Stretch.bracketTag?_eq_some h
    exact (Stretch.source_of_body? hbody).1
  always x _ tag h := by
    obtain ⟨body, hbody, ht, rfl⟩ := Stretch.bracketTag?_eq_some h
    exact always_anyTag (Stretch.source_of_body? hbody).2.2.1 ht
  inside x _ tag h := by
    obtain ⟨body, hbody, -, rfl⟩ := Stretch.bracketTag?_eq_some h
    apply begins_anyTag.silent
    change '[' ∉ body ++ [']']
    simpa using (Stretch.source_of_body? hbody).2.1
  silent x _ h := by
    cases hb : x.body? with
    | none =>
      cases x with
      | snippet s => exact s.silent_anyTag
      | opener m => cases hb
      | closer m => cases hb
    | some body =>
      obtain ⟨hsource, hopen, hclose, -⟩ := Stretch.source_of_body? hb
      rw [Stretch.bracketTag?, hb, Option.bind_some] at h
      split at h
      · cases h
      · rename_i hnot
        rw [hsource]
        exact silent_anyTag hopen hclose (by simpa using hnot)

theorem stashTags_passages (d : List Passage) :
    stashTags emptyTags (d.flatMap Passage.source) = (d.flatMap Passage.source, emptyTags) := by
  apply Stash.stow_of_forall_skip
  intro tag htag
  rw [flatMap_source, (segments_anyTag _).hits_flatMap] at htag
  obtain ⟨x, -, hx⟩ := List.mem_filterMap.mp htag
  obtain ⟨body, hbody, ht, rfl⟩ := Stretch.bracketTag?_eq_some hx
  obtain ⟨-, -, he, hmention⟩ := Stretch.source_of_body? hbody
  have hread : mentionTag.read ('[' :: (body ++ [']'])) = some (⟨['['], body, [']']⟩, []) :=
    read_filter_eq_some_iff.mpr ⟨read_bracketed he [], hmention ht⟩
  change mentionTag.covers ('[' :: (body ++ [']'])) = true
  rw [covers, hread]

/-! ## Tokens for files -/

def Snippet.tag? : Snippet → Option FileTag
  | text _ => none
  | file mark => some mark.tag

def Stretch.tag? : Stretch → Option FileTag
  | snippet s => s.tag?
  | opener _ => none
  | closer _ => none

theorem Stretch.silent_fileTag {x : Stretch} {body : Text} (h : x.body? = some body) :
    fileTag.Silent x.source := by
  obtain ⟨hsource, hopen, -, -⟩ := Stretch.source_of_body? h
  have hfirst : ∃ d t, body = d :: t ∧ Text.spells 'D' d = false := by
    cases x with
    | snippet s => cases h
    | opener m =>
      obtain rfl := Option.some.inj h
      obtain ⟨d, t, ht, hd⟩ := m.opener.exists_cons
      refine ⟨d, t ++ '=' :: m.idPart.text, by rw [ht, List.cons_append], ?_⟩
      rcases hd with rfl | rfl <;> decide
    | closer m =>
      obtain rfl := Option.some.inj h
      exact ⟨'/', m.closer.text, rfl, by decide⟩
  obtain ⟨d, t, rfl, hd⟩ := hfirst
  have hbracket : '[' ∉ d :: (t ++ [']']) := by
    rw [← List.cons_append, List.mem_append, not_or]
    exact ⟨hopen, by decide⟩
  have hword : (word ('[' :: 'D' :: "ISK FILE ID=".toList)).Silent x.source := by
    rw [hsource]
    exact silent_word_of_not_spells hd _ hbracket
  exact (hword.between _ _).filter _

theorem Stretch.exists_mark {x : Stretch} {tag : FileTag} (h : x.tag? = some tag) :
    ∃ mark, x = .snippet (.file mark) ∧ mark.tag = tag := by
  cases x with
  | snippet s =>
    cases s with
    | text run => cases h
    | file mark => exact ⟨mark, rfl, Option.some.inj h⟩
  | opener m => cases h
  | closer m => cases h

theorem segments_fileTag (xs : List Stretch) : fileTag.Segments Stretch.source Stretch.tag? xs where
  spelled x _ tag h := by
    obtain ⟨mark, rfl, rfl⟩ := Stretch.exists_mark h
    rfl
  always x _ tag h := by
    obtain ⟨mark, rfl, rfl⟩ := Stretch.exists_mark h
    exact mark.always
  inside x _ tag h := by
    obtain ⟨mark, rfl, rfl⟩ := Stretch.exists_mark h
    exact begins_fileTag.silent mark.bracket_notMem_tail
  silent x _ h := by
    cases x with
    | snippet s =>
      cases s with
      | text run => exact begins_fileTag.silent run.bracket_notMem
      | file mark => cases h
    | opener m => exact Stretch.silent_fileTag rfl
    | closer m => exact Stretch.silent_fileTag rfl

theorem Passage.mem_tags_iff {p : Passage} {tag : FileTag} :
    tag ∈ p.stretches.filterMap Stretch.tag? ↔ ∃ mark ∈ p.marks, mark.tag = tag := by
  have hsnippet (s : Snippet) : s.tag? = some tag ↔ ∃ mark ∈ s.marks, mark.tag = tag := by
    cases s with
    | text run => simp [Snippet.tag?, Snippet.marks]
    | file mark => simp [Snippet.tag?, Snippet.marks]
  cases p with
  | snippet s => simp [stretches, marks, Stretch.tag?, ← hsnippet]
  | mention m =>
    simp only [stretches, marks, List.mem_filterMap, List.mem_cons, List.mem_append, List.mem_map,
      List.not_mem_nil, or_false, List.mem_flatMap]
    constructor
    · rintro ⟨x, rfl | ⟨s, hs, rfl⟩ | rfl, hx⟩
      · cases hx
      · obtain ⟨mark, hmark, rfl⟩ := (hsnippet s).mp hx
        exact ⟨mark, ⟨s, hs, hmark⟩, rfl⟩
      · cases hx
    · rintro ⟨mark, ⟨s, hs, hmark⟩, rfl⟩
      exact ⟨.snippet s, .inr (.inl ⟨s, hs, rfl⟩), (hsnippet s).mpr ⟨mark, hmark, rfl⟩⟩

/-- The file tags that are found are the file tags of the passages. -/
theorem mem_hits_fileTag_iff {d : List Passage} {tag : FileTag} :
    tag ∈ fileTag.hits (d.flatMap Passage.source) ↔ ∃ p ∈ d, ∃ mark ∈ p.marks, mark.tag = tag := by
  rw [flatMap_source, (segments_fileTag _).hits_flatMap, List.filterMap_flatMap, List.mem_flatMap]
  simp only [Passage.mem_tags_iff]

theorem bracket_notMem_token (k : Nat) : '[' ∉ emptyFragments.token k :=
  Stash.notMem_token (by decide) (by decide) (by decide) k

/-- A snippet with a token for a file tag among the found ones. -/
def Snippet.stood (found : List FileTag) (s : Snippet) : Text :=
  Segments.exchanged emptyFragments.token found s.source s.tag?

def UserMark.stood (found : List FileTag) (m : UserMark) : Text :=
  m.openingTag ++ m.label.flatMap (Snippet.stood found) ++ closingTag m.closer.text

def Passage.stood (found : List FileTag) : Passage → Text
  | snippet s => s.stood found
  | mention m => m.stood found

theorem Passage.flatMap_exchanged (found : List FileTag) (p : Passage) :
    (p.stretches.flatMap fun x => Segments.exchanged emptyFragments.token found x.source x.tag?) =
      p.stood found := by
  cases p with
  | snippet s => exact List.append_nil _
  | mention m =>
    rw [stretches, List.flatMap_cons, List.flatMap_append, List.flatMap_map,
      List.flatMap_singleton, stood, UserMark.stood, List.append_assoc]
    rfl

theorem withFileTokens_passages (d : List Passage) :
    withFileTokens (d.flatMap Passage.source) =
      d.flatMap (Passage.stood (numberedTags (d.flatMap Passage.source))) := by
  have htoken (k : Nat) : fileTag.Silent (emptyFragments.token k) :=
    begins_fileTag.silent (bracket_notMem_token k)
  have halways : ∀ tag ∈ numberedTags (d.flatMap Passage.source), fileTag.Always tag := by
    intro tag htag
    obtain ⟨p, -, mark, -, rfl⟩ :=
      mem_hits_fileTag_iff.mp (List.mem_eraseDups.mp (List.mem_of_mem_filter htag))
    exact mark.always
  have htokens :=
    (segments_fileTag (d.flatMap Passage.stretches)).tokensFor_flatMap halways htoken 0
  rw [← flatMap_source, List.flatMap_assoc] at htokens
  simp only [Nat.zero_add] at htokens
  exact htokens.trans (List.flatMap_congr fun p _ => p.flatMap_exchanged _)

/-! ## Tokens for mentions -/

section

variable {found : List FileTag}

/-- A word that does not begin with a D is not read in a snippet with its token. -/
theorem Snippet.silent_word {x : Char} (hx : Text.spells x 'D' = false ∧ Text.spells x 'd' = false)
    (w : Text) (s : Snippet) : (word ('[' :: x :: w)).Silent (s.stood found) := by
  cases s with
  | text run => exact (begins_word _).silent run.bracket_notMem
  | file mark =>
    rw [stood, tag?, Segments.exchanged]
    split
    · exact (begins_word _).silent (bracket_notMem_token _)
    · exact mark.silent_word hx w

theorem Snippet.lineFeed_notMem (s : Snippet) (hs : ∀ run, s = .text run → '\n' ∉ run.text) :
    '\n' ∉ s.stood found := by
  cases s with
  | text run => exact hs run rfl
  | file mark =>
    rw [stood, tag?, Segments.exchanged]
    split
    · exact Stash.notMem_token (by decide) (by decide) (by decide) _
    · exact mark.notMem_source (by decide)

variable (found) in
def UserMark.toMention (m : UserMark) : Mention :=
  ⟨⟨'[' :: m.opener.text ++ ['='], m.idPart.text, [']']⟩, m.label.flatMap (Snippet.stood found),
    closingTag m.closer.text⟩

variable (m : UserMark)

theorem UserMark.spelling_toMention : mention.spelling (m.toMention found) = m.stood found := by
  change '[' :: m.opener.text ++ ['='] ++ m.idPart.text ++ [']'] ++
    m.label.flatMap (Snippet.stood found) ++ closingTag m.closer.text = _
  simp [stood, openingTag, Bracket.openingTag]

theorem UserMark.silent_label {x : Char}
    (hx : Text.spells x 'D' = false ∧ Text.spells x 'd' = false) (w : Text) :
    (word ('[' :: x :: w)).Silent (m.label.flatMap (Snippet.stood found)) :=
  silent_flatMap fun s _ => s.silent_word hx w

theorem UserMark.always : mention.Always (m.toMention found) := by
  intro rest
  have hlabel : ∀ c ∈ m.label.flatMap (Snippet.stood found), (c != '\n') = true := by
    intro c hc
    obtain ⟨s, hs, hc⟩ := List.mem_flatMap.mp hc
    rw [bne_iff_ne]
    rintro rfl
    exact s.lineFeed_notMem (fun run he => m.one_line run (he ▸ hs)) hc
  have hsilent : (word "[/USER]".toList).Silent (m.label.flatMap (Snippet.stood found)) :=
    m.silent_label (by decide) _
  have hid : ∀ c ∈ m.idPart.text, notBracket c = true := by
    intro c hc
    rw [notBracket, bne_iff_ne]
    exact (m.idPart.plain c hc).2.1
  have hname : ∀ c ∈ "USER".toList, c ∈ Text.capitals := by decide
  let after := m.label.flatMap (Snippet.stood found) ++ (closingTag m.closer.text ++ rest)
  have hword := read_tag hname m.opener.upper (x := '=') (by decide) (m.idPart.text ++ ']' :: after)
  have hclose := read_closer hname m.closer.upper rest
  have htext : mention.spelling (m.toMention found) ++ rest =
      '[' :: m.opener.text ++ '=' :: (m.idPart.text ++ ']' :: after) := by
    rw [m.spelling_toMention]
    simp [stood, openingTag, Bracket.openingTag, after]
  rw [htext]
  refine read_between_eq_some_iff.mpr ⟨after, read_between_eq_some_iff.mpr ⟨_, hword, ?_⟩, ?_⟩
  · exact (readTo_exact_eq_some_iff (by decide)).mpr ⟨rfl, hid, rfl⟩
  · have hread : (word "[/USER]".toList).read (closingTag m.closer.text ++ rest) =
        some (closingTag m.closer.text, rest) := by
      simpa [closingTag] using hclose
    rw [readTo_append_of_silent hsilent hlabel, readTo_of_read hread]
    simp [toMention]

theorem UserMark.silent_inside : mention.Silent (m.stood found).tail := by
  have hopen : '[' ∉ m.opener.text ++ '=' :: (m.idPart.text ++ [']']) := by
    simp only [List.mem_append, List.mem_cons, List.not_mem_nil, or_false, not_or]
    exact ⟨m.opener.notMem (by decide), by decide, m.idPart.bracket_notMem, by decide⟩
  have hclose : '[' ∉ '/' :: (m.closer.text ++ [']']) := by
    simp only [List.mem_append, List.mem_cons, List.not_mem_nil, or_false, not_or]
    exact ⟨by decide, m.closer.notMem (by decide), by decide⟩
  have htail : (m.stood found).tail = m.opener.text ++ '=' :: (m.idPart.text ++ [']']) ++
      m.label.flatMap (Snippet.stood found) ++ closingTag m.closer.text := rfl
  have hword : (word ('[' :: 'U' :: "SER=".toList)).Silent (m.stood found).tail := by
    rw [htail]
    exact (((begins_word _).silent hopen).append (m.silent_label (by decide) _)).append
      (silent_word_of_not_spells (by decide) _ hclose)
  exact (hword.between _ _).between _ _

variable (found) in
def Passage.toMention? : Passage → Option Mention
  | snippet _ => none
  | mention m => some (m.toMention found)

theorem Passage.exists_mention {p : Passage} {x : Mention} (h : p.toMention? found = some x) :
    ∃ m, p = .mention m ∧ m.toMention found = x := by
  cases p with
  | snippet s => cases h
  | mention m => exact ⟨m, rfl, Option.some.inj h⟩

variable (found) in
theorem segments_mention (d : List Passage) :
    mention.Segments (Passage.stood found) (Passage.toMention? found) d where
  spelled p _ x h := by
    obtain ⟨m, rfl, rfl⟩ := Passage.exists_mention h
    exact m.spelling_toMention.symm
  always p _ x h := by
    obtain ⟨m, rfl, rfl⟩ := Passage.exists_mention h
    exact m.always
  inside p _ x h := by
    obtain ⟨m, rfl, rfl⟩ := Passage.exists_mention h
    rw [m.spelling_toMention]
    exact m.silent_inside
  silent p _ h := by
    cases p with
    | snippet s =>
      have hword : (word ('[' :: 'U' :: "SER=".toList)).Silent (s.stood found) :=
        s.silent_word (by decide) _
      exact (hword.between _ _).between _ _
    | mention m => cases h

theorem mem_hits_mention_iff {d : List Passage} {x : Mention} :
    x ∈ mention.hits (d.flatMap (Passage.stood found)) ↔ ∃ m, .mention m ∈ d ∧
      m.toMention found = x := by
  rw [(segments_mention found d).hits_flatMap, List.mem_filterMap]
  constructor
  · rintro ⟨p, hp, hx⟩
    obtain ⟨m, rfl, rfl⟩ := Passage.exists_mention hx
    exact ⟨m, hp, rfl⟩
  · rintro ⟨m, hm, rfl⟩
    exact ⟨.mention m, hm, rfl⟩

end

/-! ## What a conversion finds -/

def foundTags (d : List Passage) : List FileTag := numberedTags (d.flatMap Passage.source)

def foundMentions (d : List Passage) : List Mention :=
  (mention.hits (d.flatMap (Passage.stood (foundTags d)))).eraseDups

theorem toMention_mem_foundMentions {d : List Passage} {m : UserMark} (hm : .mention m ∈ d) :
    m.toMention (foundTags d) ∈ foundMentions d :=
  List.mem_eraseDups.mpr (mem_hits_mention_iff.mpr ⟨m, hm, rfl⟩)

def Passage.tokened (d : List Passage) : Passage → Text
  | snippet s => s.stood (foundTags d)
  | mention m =>
    emptyFragments.token
      ((foundTags d).length + (foundMentions d).idxOf (m.toMention (foundTags d)))

theorem tokensFor_foundMentions (d : List Passage) :
    Stash.tokensFor emptyFragments.label (foundTags d).length
      ((foundMentions d).map mention.spelling)
      (d.flatMap (Passage.stood (foundTags d))) = d.flatMap (Passage.tokened d) := by
  have htoken (k : Nat) : mention.Silent (emptyFragments.token k) :=
    (begins_between (begins_between (begins_word _) _ _) _ _).silent (bracket_notMem_token k)
  have halways : ∀ x ∈ foundMentions d, mention.Always x := by
    intro x hx
    obtain ⟨m, -, rfl⟩ := mem_hits_mention_iff.mp (List.mem_eraseDups.mp hx)
    exact m.always
  have htokens := (segments_mention (foundTags d) d).tokensFor_flatMap halways htoken
    (foundTags d).length
  refine htokens.trans (List.flatMap_congr fun p hp => ?_)
  cases p with
  | snippet s => rfl
  | mention m => exact if_pos (toMention_mem_foundMentions hp)

theorem resolution_passages (d : List Passage) :
    resolution (d.flatMap Passage.source) =
      ⟨emptyTags, tagsWithIds (d.flatMap Passage.source),
        mentionsWithIds (d.flatMap (Passage.stood (foundTags d))),
          d.flatMap (Passage.tokened d)⟩ := by
  have hspelled : (mentionsWithIds (d.flatMap (Passage.stood (foundTags d)))).map
      (fun x => mention.spelling x.1) = (foundMentions d).map mention.spelling := by
    rw [mentionsWithIds, List.map_map]
    rfl
  have hwith : withFileTokens (d.flatMap Passage.source) =
      d.flatMap (Passage.stood (foundTags d)) :=
    withFileTokens_passages d
  have htext : Stash.tokensFor emptyFragments.label (foundTags d).length
      ((mentionsWithIds (withFileTokens (d.flatMap Passage.source))).map fun x =>
        mention.spelling x.1)
      (withFileTokens (d.flatMap Passage.source)) = d.flatMap (Passage.tokened d) := by
    rw [hwith, hspelled, tokensFor_foundMentions]
  rw [resolution, stashTags_passages]
  exact congrArg₂ (Resolution.mk _ _) (congrArg mentionsWithIds hwith) htext

/-- The ids of a document can be read exactly if none has a numeral of more than 4300 digits. -/
theorem readableIds_passages_iff {d : List Passage} :
    ReadableIds (d.flatMap Passage.source) ↔ ∀ p ∈ d, ∀ digits ∈ p.numerals,
      digits.length ≤ numeralLimit := by
  have hsnippet {mark : FileMark} {digits : Text} (h : fileNumeral? mark.tag.content = some digits)
      {p : Passage} (hm : mark ∈ p.marks) : digits ∈ p.numerals :=
    List.mem_append_left _ (List.mem_filterMap.mpr ⟨mark, hm, h⟩)
  constructor
  · intro h p hp digits hdigits
    rcases List.mem_append.mp hdigits with hdigits | hdigits
    · obtain ⟨mark, hm, hn⟩ := List.mem_filterMap.mp hdigits
      refine h.files mark.tag ?_ digits hn
      rw [stashTags_passages]
      exact mem_hits_fileTag_iff.mpr ⟨p, hp, mark, hm, rfl⟩
    · cases p with
      | snippet s => cases hdigits
      | mention m =>
        refine h.users (m.toMention (foundTags d)) ?_ digits (Option.mem_toList.mp hdigits)
        rw [stashTags_passages, withFileTokens_passages]
        exact mem_hits_mention_iff.mpr ⟨m, hp, rfl⟩
  · intro h
    constructor
    · intro tag htag digits hdigits
      rw [stashTags_passages] at htag
      obtain ⟨p, hp, mark, hm, rfl⟩ := mem_hits_fileTag_iff.mp htag
      exact h p hp digits (hsnippet hdigits hm)
    · intro x hx digits hdigits
      rw [stashTags_passages, withFileTokens_passages] at hx
      obtain ⟨m, hm, rfl⟩ := mem_hits_mention_iff.mp hx
      exact h _ hm digits (List.mem_append_right _ (Option.mem_toList.mpr hdigits))

end Bracket

end TaskBulletin
