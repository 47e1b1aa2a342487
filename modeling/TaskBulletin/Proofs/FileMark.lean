import TaskBulletin.Proofs.Meaning
import TaskBulletin.Proofs.Segment

/-!
# File tags as they are written

A file tag is written with its word in any case and an id of word characters and hyphens,
with or without a digit. It is read alike whatever follows it, it is not a bracket tag,
and the only opening bracket is its first character, before a D of either case. So no
other pattern reads anything in it.
-/

namespace TaskBulletin

namespace Pattern

theorem readWord_of_forall₂ {w a : Text} (h : List.Forall₂ (fun x c => Text.spells x c = true) w a)
    (rest : Text) : Text.readWord w (a ++ rest) = some (a, rest) := by
  induction h with
  | nil => rfl
  | @cons x c w a hs _ ih => rw [List.cons_append, Text.readWord, if_pos hs, ih, Option.map_some]

theorem exists_append_of_forall₂_append {R : Char → Char → Prop} {u v a : Text}
    (h : List.Forall₂ R (u ++ v) a) :
    ∃ b c, a = b ++ c ∧ List.Forall₂ R u b ∧ List.Forall₂ R v c := by
  induction u generalizing a with
  | nil => exact ⟨[], a, rfl, .nil, h⟩
  | cons x u ih =>
    cases h with
    | @cons _ d _ a hd h =>
      obtain ⟨b, c, rfl, hb, hc⟩ := ih h
      exact ⟨d :: b, c, rfl, .cons hd hb, hc⟩

theorem selfDelimiting_word (w : Text) : (word w).SelfDelimiting := by
  intro t a rest h u
  have hspelled := Reads.word ⟨t, rest, h⟩
  have hne := (word w).spelling_ne_nil h
  cases w with
  | nil =>
    cases hspelled
    exact absurd rfl hne
  | cons x w => exact readWord_of_forall₂ hspelled u

/-- A match between delimiters is read whatever follows, if the closer is one character that the
content may not have. -/
theorem selfDelimiting_between {α : Type} {opener : Pattern α} (ho : opener.SelfDelimiting)
    {allowed : Char → Bool} {c : Char} (hc : allowed c = false) :
    (between opener allowed (exact [c])).SelfDelimiting := by
  intro t s rest h u
  obtain ⟨v, hopen, hto⟩ := read_between_eq_some_iff.mp h
  obtain ⟨hcloser, hcontent, -⟩ := (readTo_exact_eq_some_iff hc).mp hto
  refine read_between_eq_some_iff.mpr ⟨s.content ++ c :: u, ?_, ?_⟩
  · have htext : (between opener allowed (exact [c])).spelling s ++ u =
        opener.spelling s.opener ++ (s.content ++ c :: u) := by
      rw [spelling_between, hcloser]
      simp [exact]
    rw [htext]
    exact ho hopen _
  · exact (readTo_exact_eq_some_iff hc).mpr ⟨hcloser, hcontent, rfl⟩

theorem SelfDelimiting.filter {α : Type} {p : Pattern α} (hp : p.SelfDelimiting)
    (holds : α → Bool) : (p.filter holds).SelfDelimiting := by
  intro t a rest h u
  obtain ⟨hr, ha⟩ := read_filter_eq_some_iff.mp h
  exact read_filter_eq_some_iff.mpr ⟨hp hr u, ha⟩

/-- A word is not read at a bracket before a character that does not spell its first letter. -/
theorem silent_word_of_not_spells {x d : Char} (hd : Text.spells x d = false) (w : Text) {t : Text}
    (ht : '[' ∉ d :: t) : (word ('[' :: x :: w)).Silent ('[' :: d :: t) := by
  refine (begins_word _).silent_cons ht fun rest => ?_
  rw [read_word_bracket]
  simp [Text.readWord, hd]

end Pattern

namespace Bracket

open Pattern

theorem isFileIdCharacter_of_isDigit {c : Char} (h : Text.isDigit c = true) :
    isFileIdCharacter c = true := by
  have hall : (Text.digitZeros.all fun z =>
      Text.alphanumericRanges.any fun r => r.1.ble z && (z + 9).ble r.2) = true := by decide +kernel
  rw [Text.isDigit, Text.digitValue?, Option.isSome_map, List.find?_isSome] at h
  obtain ⟨z, hz, hc⟩ := h
  simp only [Bool.and_eq_true, decide_eq_true_eq] at hc
  obtain ⟨r, hr, hrange⟩ := List.any_eq_true.mp (List.all_eq_true.mp hall z hz)
  rw [Bool.and_eq_true, Nat.ble_eq, Nat.ble_eq] at hrange
  have hword : Text.isAlphanumeric c = true := by
    refine List.any_eq_true.mpr ⟨r, hr, ?_⟩
    simp only [Bool.and_eq_true, decide_eq_true_eq]
    omega
  rw [isFileIdCharacter, Text.isWordCharacter, hword, Bool.or_true, Bool.or_true]

/-- A blank that no equals sign and no slash comes before is in no bracket tag. -/
theorem isTagBody_append_blank {letters : Text} (heq : '=' ∉ letters) (hslash : '/' ∉ letters)
    (rest : Text) : isTagBody (letters ++ ' ' :: rest) = false := by
  have hbody : dropSlash (letters ++ ' ' :: rest) = letters ++ ' ' :: rest := by
    cases letters with
    | nil => rfl
    | cons c letters =>
      refine dropSlash_cons ?_ _
      rintro rfl
      exact hslash (List.mem_cons_self ..)
  have hvalue : isValuePart ((letters ++ ' ' :: rest).dropWhile Text.isTagLetter) = false := by
    have hletter : Text.isTagLetter ' ' = false := by decide
    rw [List.dropWhile_append, List.dropWhile_cons_of_neg (by simp [hletter])]
    cases hd : letters.dropWhile Text.isTagLetter with
    | nil => rfl
    | cons c t =>
      have hc : c ∈ letters := by
        apply (List.dropWhile_suffix Text.isTagLetter).mem
        rw [hd]
        exact List.mem_cons_self ..
      have hne : c ≠ '=' := by
        rintro rfl
        exact heq hc
      simp [isValuePart, hne]
  rw [isTagBody, hbody, hvalue, Bool.and_false]

def fileWord : Text := "[DISK FILE ID=".toList

theorem selfDelimiting_fileTag : fileTag.SelfDelimiting := by
  have hend : isFileIdCharacter ']' = false := by decide +kernel
  have hbetween : (between (word fileWord) isFileIdCharacter (exact [']'])).SelfDelimiting :=
    selfDelimiting_between (selfDelimiting_word fileWord) hend
  exact @SelfDelimiting.filter _ _ hbetween _

theorem read_fileTag {part : Text} (hne : part ≠ [])
    (hpart : ∀ c ∈ part, isFileIdCharacter c = true) (rest : Text) :
    fileTag.read (fileWord ++ part ++ ']' :: rest) = some (⟨fileWord, part, [']']⟩, rest) := by
  refine read_filter_eq_some_iff.mpr ⟨read_between_eq_some_iff.mpr ⟨part ++ ']' :: rest, ?_, ?_⟩,
    ?_⟩
  · rw [List.append_assoc]
    rfl
  · exact (readTo_exact_eq_some_iff (by decide +kernel)).mpr ⟨rfl, hpart, rfl⟩
  · simp [hne]

structure FileMark where
  tag : FileTag
  reads : fileTag.Reads tag

namespace FileMark

def ofPart (part : Text) (hne : part ≠ []) (hpart : ∀ c ∈ part, isFileIdCharacter c = true) :
    FileMark where
  tag := ⟨fileWord, part, [']']⟩
  reads := ⟨_, [], read_fileTag hne hpart []⟩

variable (mark : FileMark)

def source : Text := fileTag.spelling mark.tag

theorem always : fileTag.Always mark.tag := selfDelimiting_fileTag.always mark.reads

theorem exists_source :
    ∃ name, List.Forall₂ (fun x c => Text.spells x c = true) "DISK FILE ID=".toList name ∧
      (∀ c ∈ mark.tag.content, isFileIdCharacter c = true) ∧
      mark.source = '[' :: (name ++ mark.tag.content ++ [']']) := by
  obtain ⟨hread, -⟩ := mark.reads.filter
  obtain ⟨hopen, hcontent, hclose⟩ := hread.between
  obtain ⟨name, hname⟩ := (begins_word _).exists_spelling hopen
  have hspelled := hopen.word
  have hcloser := hclose.exact
  rw [show mark.tag.opener = '[' :: name from hname] at hspelled
  have htail := (List.forall₂_cons.mp hspelled).2
  refine ⟨name, htail, hcontent, ?_⟩
  have hsource : mark.source = mark.tag.opener ++ mark.tag.content ++ mark.tag.closer := rfl
  rw [hsource, hcloser, show mark.tag.opener = '[' :: name from hname]
  rfl

/-- After the first character come letters of the word, id characters and the closing bracket. -/
theorem notMem_tail {c : Char} (hword : ∀ x ∈ "DISK FILE ID=".toList, Text.spells x c = false)
    (hid : isFileIdCharacter c = false) (hc : c ≠ ']') : c ∉ mark.source.tail := by
  obtain ⟨name, hname, hcontent, hsource⟩ := mark.exists_source
  rw [hsource, List.tail_cons, List.mem_append, List.mem_append, List.mem_singleton, not_or, not_or]
  refine ⟨⟨notMem_of_forall₂ hname hword, fun hm => ?_⟩, hc⟩
  rw [hcontent c hm] at hid
  cases hid

theorem source_eq_cons : mark.source = '[' :: mark.source.tail := by
  obtain ⟨name, -, -, hsource⟩ := mark.exists_source
  rw [hsource, List.tail_cons]

theorem notMem_source {c : Char} (hc : c ∈ "\x00\n\r&<>".toList) : c ∉ mark.source := by
  have hall : ∀ c ∈ "\x00\n\r&<>".toList, c ≠ '[' ∧ c ≠ ']' ∧ isFileIdCharacter c = false ∧
      ∀ x ∈ "DISK FILE ID=".toList, Text.spells x c = false := by decide +kernel
  obtain ⟨hopen, hclose, hid, hword⟩ := hall c hc
  rw [source_eq_cons, List.mem_cons, not_or]
  exact ⟨hopen, mark.notMem_tail hword hid hclose⟩

theorem bracket_notMem_tail : '[' ∉ mark.source.tail :=
  mark.notMem_tail (by decide) (by decide +kernel) (by decide)

theorem exists_first : ∃ d t, mark.source = '[' :: d :: t ∧ (d = 'D' ∨ d = 'd') := by
  obtain ⟨name, hname, -, hsource⟩ := mark.exists_source
  cases hname with
  | @cons _ d _ name hd _ =>
    have hspells : Text.spells 'D' d = true := hd
    have hlower : 'D'.toLower = 'd' := by decide
    have hcase : d = 'D' ∨ d = 'd' := by simpa [Text.spells, Text.foldsOnto, hlower] using hspells
    exact ⟨d, _, hsource, hcase⟩

theorem silent_word {x : Char} (hx : Text.spells x 'D' = false ∧ Text.spells x 'd' = false)
    (w : Text) : (word ('[' :: x :: w)).Silent mark.source := by
  obtain ⟨d, t, hsource, hd⟩ := mark.exists_first
  have hbracket := mark.bracket_notMem_tail
  rw [hsource] at hbracket ⊢
  refine silent_word_of_not_spells ?_ w hbracket
  rcases hd with rfl | rfl
  · exact hx.1
  · exact hx.2

/-- The blank after the letters of its word keeps a file tag from being a bracket tag. -/
theorem isTagBody_eq_false {name : Text}
    (h : List.Forall₂ (fun x c => Text.spells x c = true) "DISK FILE ID=".toList name)
    (part : Text) : isTagBody (name ++ part) = false := by
  have hword : "DISK FILE ID=".toList = "DISK".toList ++ ' ' :: "FILE ID=".toList := by decide
  rw [hword] at h
  obtain ⟨letters, more, rfl, hletters, hmore⟩ := exists_append_of_forall₂_append h
  obtain ⟨blank, rest, hblank, -, rfl⟩ := List.forall₂_cons_left_iff.mp hmore
  have hlower : ' '.toLower = ' ' := by decide
  obtain rfl : blank = ' ' := by simpa [Text.spells, Text.foldsOnto, hlower] using hblank
  rw [List.append_assoc, List.cons_append]
  exact isTagBody_append_blank (notMem_of_forall₂ hletters (by decide))
    (notMem_of_forall₂ hletters (by decide)) _

theorem silent_anyTag : anyTag.Silent mark.source := by
  obtain ⟨name, hname, hcontent, hsource⟩ := mark.exists_source
  have hbracket := mark.bracket_notMem_tail
  have hclose : ']' ∉ name ++ mark.tag.content := by
    rw [List.mem_append, not_or]
    exact ⟨notMem_of_forall₂ hname (by decide),
      fun hm => absurd (hcontent _ hm) (by decide +kernel)⟩
  have hbody := isTagBody_eq_false hname mark.tag.content
  rw [hsource] at hbracket ⊢
  refine begins_anyTag.silent_cons hbracket fun rest => ?_
  have hread := read_bracketed hclose rest
  have htext : '[' :: (name ++ mark.tag.content ++ [']'] ++ rest) =
      '[' :: (name ++ mark.tag.content ++ ']' :: rest) := by simp
  rw [htext, anyTag, read_filter_of_read hread, if_neg (by simp [hbody])]

end FileMark

end Bracket

end TaskBulletin
