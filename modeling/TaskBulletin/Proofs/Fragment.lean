import TaskBulletin.Proofs.ReferenceMeaning

/-!
# Markup in the name of a file

The fragments of references go back before the rules of the markup are applied, so markup in
a file's name or URL is rewritten like that of the body. This happens by itself: every rule
leaves a text alone before its first opening bracket and after its last closing one, and line
ends are put in order on each side of a character that is no blank. So a found file between
runs of text is shown as it is named exactly if the rules leave its anchor alone.
-/

namespace TaskBulletin

namespace Pattern

variable {α : Type} {p : Pattern α}

/-! ## Elements that end with a word -/

/-- Where a word is not read before a spelling of it, it is not read with another ending either:
all spellings have the length of the word. -/
theorem read_word_append_eq_none {w t a rest : Text} (ha : a.length = w.length)
    (h : (word w).read (t ++ (a ++ rest)) = none) (u : Text) :
    (word w).read (t ++ (a ++ u)) = none := by
  rw [Option.eq_none_iff_forall_ne_some]
  rintro ⟨b, v⟩ hb
  have hfront : b ++ v = t ++ a ++ u := by
    rw [List.append_assoc]
    exact ((word w).read_eq hb).symm
  have hlength : b.length = w.length := (Reads.word ⟨_, _, hb⟩).length_eq.symm
  have hle : b.length ≤ (t ++ a).length := by
    rw [List.length_append]
    omega
  obtain ⟨x, hx⟩ : b <+: t ++ a := List.prefix_of_prefix_length_le ⟨v, hfront⟩ ⟨u, rfl⟩ hle
  have hread : (word w).read (b ++ (x ++ rest)) = some (b, x ++ rest) := selfDelimiting_word w hb _
  rw [← List.append_assoc, hx, List.append_assoc, h] at hread
  cases hread

/-- The search for a word ends at the same place whatever follows the word. -/
theorem readTo_word_append {allowed : Char → Bool} {w t content a rest : Text}
    (h : readTo allowed (word w) t = some (content, a, rest)) (u : Text) :
    readTo allowed (word w) (content ++ (a ++ u)) = some (content, a, u) := by
  obtain ⟨_, -, hword⟩ := exists_read_of_readTo h
  have hlength : a.length = w.length := (Reads.word ⟨_, _, hword⟩).length_eq.symm
  induction t generalizing content with
  | nil => cases h
  | cons c t ih =>
    have ht := readTo_eq_append h
    rw [readTo] at h
    cases hr : (word w).read (c :: t) with
    | some r =>
      rw [hr] at h
      simp only [Option.some.injEq, Prod.mk.injEq] at h
      obtain ⟨rfl, rfl, rfl⟩ := h
      exact readTo_of_read (selfDelimiting_word w hr u)
    | none =>
      simp only [hr, Option.ite_none_right_eq_some, Option.map_eq_some_iff] at h
      obtain ⟨hc, ⟨k, b, rest'⟩, hk, he⟩ := h
      simp only [Prod.mk.injEq] at he
      obtain ⟨rfl, rfl, rfl⟩ := he
      have hbefore : (word w).read (c :: k ++ (b ++ rest')) = none := by
        rw [← List.append_assoc, ← hr, ht]
        rfl
      have hnone := read_word_append_eq_none hlength hbefore u
      rw [List.cons_append, readTo, ← List.cons_append, hnone, if_pos hc, ih hk]
      rfl

theorem selfDelimiting_between_word {opener : Pattern α} (ho : opener.SelfDelimiting)
    (allowed : Char → Bool) (w : Text) : (between opener allowed (word w)).SelfDelimiting := by
  intro t s rest h u
  obtain ⟨v, hopen, hto⟩ := read_between_eq_some_iff.mp h
  refine read_between_eq_some_iff.mpr ⟨s.content ++ (s.closer ++ u), ?_, readTo_word_append hto u⟩
  rw [spelling_between, List.append_assoc, List.append_assoc]
  exact ho hopen _

/-! ## Texts that go on without the last character of a match -/

section

variable {c : Char} (he : p.Ends c)
include he

theorem pieces_of_notMem {t : Text} (h : c ∉ t) : p.pieces t = t.map .plain := by
  induction t with
  | nil => exact p.pieces_nil
  | cons d t ih =>
    have hnone : p.read (d :: t) = none := by
      rw [Option.eq_none_iff_forall_ne_some]
      rintro ⟨a, rest⟩ hr
      obtain ⟨m, hm⟩ := he a ⟨_, _, hr⟩
      rw [p.read_eq hr, hm] at h
      simp at h
    rw [pieces_of_not_read p hnone, ih fun hm => h (List.mem_cons_of_mem _ hm)]
    rfl

/-- An ending without the last character of a match has no part in any match. -/
theorem pieces_append_of_notMem (hp : p.SelfDelimiting) {v : Text} (hv : c ∉ v) (t : Text) :
    p.pieces (t ++ v) = p.pieces t ++ v.map .plain := by
  have hcut := pieces_append_or_straddle hp (List.append_nil (p.pieces t)).symm v
  rw [writeWith_spelling_pieces, pieces_of_notMem he hv] at hcut
  -- A match across the seam would have its last character in the ending.
  refine hcut.resolve_right ?_
  rintro ⟨s, hs⟩
  obtain ⟨m, hm⟩ := he s.found ⟨_, _, hs.read_eq⟩
  have ht := p.read_eq hs.read_eq
  have hlt := hs.length_lt
  rw [hm, List.length_append, List.length_singleton] at hlt
  rw [hm, List.append_assoc, ← List.cons_append] at ht
  obtain ⟨x, hx⟩ : s.first :: writeWith p.spelling s.later <+: m :=
    List.prefix_of_prefix_length_le ⟨v, ht⟩ ⟨[c] ++ s.rest, rfl⟩ (by omega)
  rw [← hx, List.append_assoc] at ht
  rw [List.append_cancel_left ht] at hv
  simp at hv

end

end Pattern

namespace Bracket

open Pattern

/-! ## Passes between brackets -/

/-- The pass acts only between the first opening bracket of a text and the last closing one, and
there as it does on that part alone. -/
def Framed (pass : Text → Text) : Prop :=
  ∀ u v, '[' ∉ u → ']' ∉ v → ∀ t, pass (u ++ (t ++ v)) = u ++ (pass t ++ v)

theorem Framed.comp {pass more : Text → Text} (h : Framed pass) (hm : Framed more) :
    Framed fun t => more (pass t) := by
  intro u v hu hv t
  change more (pass (u ++ (t ++ v))) = _
  rw [h u v hu hv, hm u v hu hv]

theorem Framed.foldl {ι : Type} {pass : ι → Text → Text} (h : ∀ i, Framed (pass i)) (is : List ι) :
    Framed fun t => is.foldl (fun t i => pass i t) t := by
  induction is with
  | nil => exact fun _ _ _ _ _ => rfl
  | cons i is ih => exact (h i).comp ih

/-- It is enough that matches stand in brackets and are read alike whatever follows them. -/
theorem framed_rewrite {α : Type} {p : Pattern α} (hb : p.Begins '[') (he : p.Ends ']')
    (hp : p.SelfDelimiting) (f : α → Text) : Framed (p.rewrite f) := by
  intro u v hu hv t
  rw [rewrite_append_of_silent (hb.silent hu), rewrite, pieces_append_of_notMem he hp hv,
    writeWith_append, writeWith_map_plain, rewrite]

theorem framed_rewrite_between {α : Type} {opener : Pattern α} (hb : opener.Begins '[')
    (ho : opener.SelfDelimiting) (w : Text) (f : Span α Text → Text) :
    Framed ((between opener (fun _ => true) (word (w ++ [']']))).rewrite f) :=
  framed_rewrite (begins_between hb _ _) (ends_between _ _ (ends_word w))
    (selfDelimiting_between_word ho _ _) f

theorem framed_rewrite_paired (name : Text) (f : Span Text Text → Text) :
    Framed ((paired name).rewrite f) :=
  framed_rewrite_between (begins_word _) (selfDelimiting_word _) ('[' :: '/' :: name) f

theorem framed_rewrite_pairedWithValue (name : Text) (f : Span (Span Text Text) Text → Text) :
    Framed ((pairedWithValue name).rewrite f) :=
  framed_rewrite_between (begins_between (begins_word _) _ _)
    (selfDelimiting_between (selfDelimiting_word _) (by decide)) ('[' :: '/' :: name) f

theorem Rule.framed_apply (r : Rule) : Framed r.apply := by
  cases r with
  | style s => exact framed_rewrite_paired _ _
  | targeted => exact framed_rewrite_pairedWithValue _ _
  | bare => exact framed_rewrite_paired _ _
  | image => exact framed_rewrite_paired _ _
  | color => exact framed_rewrite_pairedWithValue _ _
  | size => exact framed_rewrite_pairedWithValue _ _

theorem framed_flattenBlocks : Framed flattenBlocks := by
  have hnumbered : Framed (numberedList.rewrite fun list => numberedLines list.content) :=
    framed_rewrite_between (begins_word _) (selfDelimiting_word _) "[/LIST".toList _
  have hbullets : Framed (bulletList.rewrite fun list => bulletLines list.content) :=
    framed_rewrite_paired _ _
  have hparagraphs : Framed (paragraph.rewrite fun p => p.content ++ ['\n']) :=
    framed_rewrite_paired _ _
  exact (hnumbered.comp hbullets).comp hparagraphs

theorem framed_applyRules : Framed applyRules :=
  framed_flattenBlocks.comp (Framed.foldl Rule.framed_apply Rule.order)

end Bracket

namespace Text

/-! ## Line ends on both sides of a character -/

/-- Line ends in order, and no more than two in a row. -/
def evenLines (t : Text) : Text := limitLineFeeds 0 (unifyLineEnds t)

theorem unifyLineEnds_append_cons {d : Char} (hn : d ≠ '\n') (hr : d ≠ '\r') (u t : Text) :
    unifyLineEnds (u ++ d :: t) = unifyLineEnds u ++ d :: unifyLineEnds t := by
  fun_induction unifyLineEnds u with
  | case1 => exact unifyLineEnds_cons hr t
  | case2 u ih => exact congrArg ('\n' :: ·) ih
  | case3 c u hne ih =>
    rw [List.cons_append, List.cons_append, ← ih]
    by_cases hc : c = '\r'
    · subst hc
      have hhead : (u ++ d :: t).head? ≠ some '\n' := by
        cases u with
        | nil => simpa using hn
        | cons e u =>
          rintro he
          obtain rfl : e = '\n' := by simpa using he
          exact hne u rfl rfl
      rw [unifyLineEnds_return, if_neg hhead, if_pos rfl]
    · rw [unifyLineEnds_cons hc, if_neg hc]

theorem limitLineFeeds_append_cons {d : Char} (hn : d ≠ '\n') (seen : Nat) (u t : Text) :
    limitLineFeeds seen (u ++ d :: t) = limitLineFeeds seen u ++ d :: limitLineFeeds 0 t := by
  induction u generalizing seen with
  | nil =>
    rw [List.nil_append, limitLineFeeds, limitLineFeeds, if_neg hn]
    rfl
  | cons c u ih =>
    rw [List.cons_append, limitLineFeeds, limitLineFeeds]
    split
    · split
      · rw [ih, List.cons_append]
      · exact ih seen
    · rw [ih, List.cons_append]

section

variable {d : Char} (hd : isBlank d = false)
include hd

theorem evenLines_append_cons (u t : Text) :
    evenLines (u ++ d :: t) = evenLines u ++ d :: evenLines t := by
  have hne {c : Char} (hc : isBlank c = true) : d ≠ c := by
    rintro rfl
    rw [hd] at hc
    cases hc
  rw [evenLines, unifyLineEnds_append_cons (hne (by decide)) (hne (by decide)),
    limitLineFeeds_append_cons (hne (by decide)), evenLines, evenLines]

theorem trimStart_append_cons (u t : Text) : trimStart (u ++ d :: t) = trimStart u ++ d :: t := by
  induction u with
  | nil => exact List.dropWhile_cons_of_neg (by simp [hd])
  | cons c u ih =>
    rw [List.cons_append, trimStart, trimStart, List.dropWhile_cons, List.dropWhile_cons]
    split
    · exact ih
    · rfl

theorem trimEnd_append_cons (u t : Text) : trimEnd (u ++ d :: t) = u ++ d :: trimEnd t := by
  have hstart := trimStart_append_cons hd t.reverse u.reverse
  rw [trimStart, trimStart] at hstart
  rw [trimEnd, List.reverse_append, List.reverse_cons, List.append_assoc,
    List.singleton_append, hstart, trimEnd]
  simp

end

/-- Between two characters that are no blanks, spacing is put in order by itself. -/
theorem normalizeSpacing_between_iff {d e : Char} (hd : isBlank d = false) (he : isBlank e = false)
    (u v t t' : Text) :
    normalizeSpacing (u ++ (d :: t ++ [e] ++ v)) = normalizeSpacing (u ++ (d :: t' ++ [e] ++ v)) ↔
      evenLines (d :: t ++ [e]) = evenLines (d :: t' ++ [e]) := by
  have hwhole (t : Text) : normalizeSpacing (u ++ (d :: t ++ [e] ++ v)) =
      trimStart (evenLines u) ++ d :: (evenLines t ++ e :: trimEnd (evenLines v)) := by
    have htext : u ++ (d :: t ++ [e] ++ v) = u ++ d :: (t ++ e :: v) := by simp
    have heven := evenLines_append_cons hd u (t ++ e :: v)
    rw [evenLines_append_cons he] at heven
    rw [normalizeSpacing, ← evenLines, htext, heven, trim, trimStart_append_cons hd,
      ← List.cons_append, ← List.append_assoc, trimEnd_append_cons he]
    simp
  have hinner (t : Text) : evenLines (d :: t ++ [e]) = d :: (evenLines t ++ [e]) := by
    have heven := evenLines_append_cons hd [] (t ++ [e])
    rw [evenLines_append_cons he] at heven
    exact heven
  rw [hwhole, hwhole, hinner, hinner]
  simp

end Text

namespace Bracket

/-! ## A file between two runs of text -/

section

variable (before after : Run) (mark : FileMark)

def fileBetween : List Passage :=
  [.snippet (.text before), .snippet (.file mark), .snippet (.text after)]

theorem source_fileBetween : (fileBetween before after mark).flatMap Passage.source =
    before.text ++ (mark.source ++ after.text) := by
  simp [fileBetween, Passage.source, Snippet.source]

variable (files : Int → Except Text (Option DiskFile)) (users : Int → Except Text Text)

theorem html_fileBetween : (fileBetween before after mark).flatMap (Passage.html files users) =
    Html.escape before.text ++ (mark.html files ++ Html.escape after.text) := by
  simp [fileBetween, Passage.html, Snippet.html]

theorem apart_fileBetween (label : Text) {id : Nat} (h : mark.number? = some id) :
    Apart label ((fileBetween before after mark).flatMap (Passage.signs files users)) := by
  have hsigns : (fileBetween before after mark).flatMap (Passage.signs files users) =
      (Html.escape before.text).map .char ++
        .opens :: ((mark.html files).map .char ++ .closes ::
          (Html.escape after.text).map .char) := by
    simp [fileBetween, Passage.signs, Snippet.signs, h]
  rw [hsigns]
  exact .of_single label _ _ _

theorem numerals_fileBetween {digits : Text} (h : fileNumeral? mark.tag.content = some digits) :
    (∀ p ∈ fileBetween before after mark, ∀ numeral ∈ p.numerals, numeral.length ≤ numeralLimit) ↔
      digits.length ≤ numeralLimit := by
  simp [fileBetween, Passage.numerals, Passage.marks, Snippet.marks, h]

end

theorem exists_anchorRaw (target body : Text) :
    ∃ inner, Html.anchorRaw target body = '<' :: inner ++ ['>'] := by
  have hopen : "<a href=\"".toList = '<' :: "a href=\"".toList := by decide
  have hclose : "</a>".toList = "</a".toList ++ ['>'] := by decide
  have hassoc (o m c : Text) :
      '<' :: o ++ target ++ m ++ body ++ (c ++ ['>']) =
        '<' :: (o ++ target ++ m ++ body ++ c) ++ ['>'] := by
    simp
  unfold Html.anchorRaw
  rewrite [hopen, hclose, hassoc]
  exact ⟨_, rfl⟩

section

variable {files : Int → Except Text (Option DiskFile)} {users : Int → Except Text Text}
  (before after : Run) {digits : Text} (hne : digits ≠ [])
  (hdigits : ∀ c ∈ digits, Text.isDigit c = true)
include hne hdigits

theorem length_le_of_convert {html : Text}
    (h : (convert (.recording files users)
      (before.text ++ ("[DISK FILE ID=".toList ++ digits ++ "]".toList ++ after.text)) .empty).map
      Prod.fst =
        .ok html) : digits.length ≤ numeralLimit := by
  let mark : FileMark := .ofPart digits hne fun c hc => isFileIdCharacter_of_isDigit (hdigits c hc)
  have hreadable : ReadableIds ((fileBetween before after mark).flatMap Passage.source) := by
    rw [source_fileBetween]
    change (convert _ (before.text ++ (mark.source ++ after.text)) _).map _ = _ at h
    rw [convert_recording] at h
    cases hr : resolve (before.text ++ (mark.source ++ after.text)) with
    | error e =>
      rw [hr] at h
      cases h
    | ok r => exact readable_of_resolve hr
  have hnumeral : fileNumeral? mark.tag.content = some digits := fileNumeral?_of_digits hne hdigits
  exact (numerals_fileBetween before after mark hnumeral).mp (readableIds_passages_iff.mp hreadable)

variable {file : DiskFile} (hfile : files (Numeral.written digits) = .ok (some file))
  (hnul : '\x00' ∉ file.url ∧ '\x00' ∉ file.name)
include hfile hnul

/-- The rules rewrite the anchor of a file, but not the text around it. -/
theorem convert_found_file (hshort : digits.length ≤ numeralLimit) :
    (convert (.recording files users)
      (before.text ++ ("[DISK FILE ID=".toList ++ digits ++ "]".toList ++ after.text)) .empty).map
        Prod.fst =
        .ok (Text.normalizeSpacing (Html.escape before.text ++
          (applyRules (Html.anchor file.url file.name) ++ Html.escape after.text))) := by
  let mark : FileMark := .ofPart digits hne fun c hc => isFileIdCharacter_of_isDigit (hdigits c hc)
  have hnumeral : fileNumeral? mark.tag.content = some digits := fileNumeral?_of_digits hne hdigits
  have hnumber : mark.number? = some (Numeral.written digits) := by
    rw [FileMark.number?, fileNumber?, hnumeral, Option.map_some]
  have hhtml : mark.html files = Html.anchor file.url file.name := by
    simp only [FileMark.html, hnumber, hfile]
  have hfree : NulFree files users (fileBetween before after mark) := by
    simpa [NulFree, fileBetween, Passage.supplied, Passage.marks, Snippet.marks,
      FileMark.supplied, hnumber, hfile] using hnul
  have hconvert :=
    convert_passages ((numerals_fileBetween before after mark hnumeral).mpr hshort) hfree
    (apart_fileBetween before after mark files users "HTML".toList hnumber)
  rw [source_fileBetween, html_fileBetween, hhtml] at hconvert
  have hafter : ']' ∉ Html.escape after.text := fun hm =>
    (Html.mem_escape hm).elim (fun hm => (after.plain _ hm).2.1 rfl) (by decide)
  rw [← framed_applyRules _ _ (bracket_notMem_escape before.bracket_notMem) hafter]
  exact hconvert

/-- A found file is shown as it is named exactly if its id can be read and the rules leave its
anchor as it is, up to line ends. -/
theorem file_shown_as_named_iff :
    (convert (.recording files users)
      (before.text ++ ("[DISK FILE ID=".toList ++ digits ++ "]".toList ++ after.text)) .empty).map
        Prod.fst =
        .ok (Text.normalizeSpacing (Html.escape before.text ++
          (Html.anchor file.url file.name ++ Html.escape after.text))) ↔
      digits.length ≤ 4300 ∧ Text.evenLines (applyRules (Html.anchor file.url file.name)) =
        Text.evenLines (Html.anchor file.url file.name) := by
  obtain ⟨inner, hanchor⟩ : ∃ inner, Html.anchor file.url file.name = '<' :: inner ++ ['>'] :=
    exists_anchorRaw _ _
  have hrules : applyRules (Html.anchor file.url file.name) = '<' :: applyRules inner ++ ['>'] := by
    rw [hanchor]
    exact framed_applyRules ['<'] ['>'] (by decide) (by decide) inner
  have hspacing := Text.normalizeSpacing_between_iff (d := '<') (e := '>') (by decide) (by decide)
    (Html.escape before.text) (Html.escape after.text) (applyRules inner) inner
  rw [← hrules, ← hanchor] at hspacing
  constructor
  · intro h
    have hshort := length_le_of_convert before after hne hdigits h
    rw [convert_found_file before after hne hdigits hfile hnul hshort] at h
    exact ⟨hshort, hspacing.mp (Except.ok.inj h)⟩
  · rintro ⟨hshort, heven⟩
    rw [convert_found_file before after hne hdigits hfile hnul hshort, hspacing.mpr heven]

theorem file_shown_as_named_of_withoutElements (hshort : digits.length ≤ numeralLimit)
    (h : WithoutElements (Html.anchor file.url file.name)) :
    (convert (.recording files users)
      (before.text ++ ("[DISK FILE ID=".toList ++ digits ++ "]".toList ++ after.text)) .empty).map
        Prod.fst =
        .ok (Text.normalizeSpacing (Html.escape before.text ++
          (Html.anchor file.url file.name ++ Html.escape after.text))) := by
  rw [convert_found_file before after hne hdigits hfile hnul hshort, h.applyRules_eq]

end

/-- A file lookup that finds a file of this name, with the URL `u`. -/
def findNamed (name : Text) : Int → Except Text (Option DiskFile) := fun id =>
  .ok (some ⟨id, name, "u".toList⟩)

theorem file_shown_as_named_iff_version :
    "5".toList ≠ [] ∧ (∀ c ∈ "5".toList, Text.isDigit c = true) ∧
    findNamed "[v2]".toList (Numeral.written "5".toList) =
      .ok (some ⟨5, "[v2]".toList, "u".toList⟩) ∧
    ('\x00' ∉ "u".toList ∧ '\x00' ∉ "[v2]".toList) ∧
    (convert (.recording (findNamed "[v2]".toList) knowNobody)
      ("a ".toList ++ ("[DISK FILE ID=".toList ++ "5".toList ++ "]".toList ++ " b".toList))
        .empty).map Prod.fst =
        .ok (Text.normalizeSpacing (Html.escape "a ".toList ++
          (Html.anchor "u".toList "[v2]".toList ++ Html.escape " b".toList))) := by
  have hne : "5".toList ≠ [] := by decide
  have hdigits : ∀ c ∈ "5".toList, Text.isDigit c = true := by decide
  have hfile : findNamed "[v2]".toList (Numeral.written "5".toList) =
      .ok (some ⟨5, "[v2]".toList, "u".toList⟩) := by rfl
  have hnul : '\x00' ∉ "u".toList ∧ '\x00' ∉ "[v2]".toList := by decide
  refine ⟨hne, hdigits, hfile, hnul, ?_⟩
  exact (file_shown_as_named_iff ⟨"a ".toList, by decide⟩ ⟨" b".toList, by decide⟩ hne
    hdigits hfile hnul).mpr ⟨by decide, by decide +kernel⟩

/-- A bold name is not shown as it is. -/
theorem file_not_shown_as_named_bold :
    (convert (.recording (findNamed "[B]x[/B]".toList) knowNobody) "[DISK FILE ID=5]".toList
      .empty).map
      Prod.fst ≠ .ok (Text.normalizeSpacing (Html.anchor "u".toList "[B]x[/B]".toList)) := by
  decide +kernel

end Bracket

end TaskBulletin
