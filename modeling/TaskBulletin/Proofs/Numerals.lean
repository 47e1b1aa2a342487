import TaskBulletin.Proofs.FileMark
import Mathlib.Data.List.TakeWhile

/-!
# When a conversion succeeds

A reference names its file or its user by a numeral in digits of any script, and a numeral
is read unless it has more than 4300 digits, leading zeros included. So a conversion fails
exactly if a reference that it finds has a longer numeral; what the lookups do has no part
in it. An id that was read has no more digits than may be written.
-/

namespace TaskBulletin

namespace Numeral

/-- One or more decimal digits, each of any script. -/
def Digits (t : Text) : Prop := t ≠ [] ∧ ∀ c ∈ t, Text.isDigit c = true

theorem digits?_eq_some {t : Text} (h : ∀ c ∈ t, Text.isDigit c = true) :
    digits? t = some (t.filterMap Text.digitValue?) := by
  induction t with
  | nil => rfl
  | cons c t ih =>
    obtain ⟨d, hd⟩ := Option.isSome_iff_exists.mp (h c (List.mem_cons_self ..))
    have ih := ih fun c hc => h c (List.mem_cons_of_mem _ hc)
    rw [digits?] at ih ⊢
    rw [List.mapM_cons, hd, ih, List.filterMap_cons_some hd]
    rfl

theorem digits?_eq_none {t : Text} {c : Char} (hc : c ∈ t) (h : Text.isDigit c = false) :
    digits? t = none := by
  induction t with
  | nil => cases hc
  | cons d t ih =>
    rw [digits?, List.mapM_cons]
    rcases List.mem_cons.mp hc with rfl | hc
    · have hnone : Text.digitValue? c = none := by simpa [Text.isDigit] using h
      rw [hnone]
      rfl
    · have ih := ih hc
      rw [digits?] at ih
      rw [ih]
      cases Text.digitValue? d <;> rfl

theorem value_lt {ds : List Nat} (h : ∀ d ∈ ds, d < 10) : value ds < 10 ^ ds.length := by
  induction ds using List.reverseRecOn with
  | nil => exact Nat.one_pos
  | append_singleton ds d ih =>
    have hd := h d (by simp)
    have hds := ih fun e he => h e (List.mem_append_left _ he)
    rw [value] at hds
    rw [value, List.foldl_append, List.length_append, List.length_singleton, Nat.pow_succ]
    simp only [List.foldl_cons, List.foldl_nil]
    omega

def written (digits : Text) : Nat := value (digits.filterMap Text.digitValue?)

theorem written_lt {digits : Text} {k : Nat} (h : digits.length ≤ k) : written digits < 10 ^ k := by
  have hvalues : ∀ d ∈ digits.filterMap Text.digitValue?, d < 10 := by
    intro d hd
    obtain ⟨c, -, hc⟩ := List.mem_filterMap.mp hd
    exact Text.digitValue?_lt hc
  have hlength : (digits.filterMap Text.digitValue?).length ≤ k :=
    (List.length_filterMap_le _ _).trans h
  exact (value_lt hvalues).trans_le (Nat.pow_le_pow_right (Nat.succ_pos 9) hlength)

theorem writable_written {digits : Text} (h : digits.length ≤ numeralLimit) :
    writable (written digits) = true := by
  have hlength {k : Nat} (hk : 0 < k) (h : digits.length ≤ k) :
      (Text.ofNat (written digits)).length ≤ k :=
    (Nat.length_toDigits_le_iff (by decide) hk).mpr (written_lt h)
  exact decide_eq_true (hlength (by decide) h)

theorem ofDigits_filterMap {digits : Text} (h : ∀ c ∈ digits, Text.isDigit c = true) :
    ofDigits (digits.filterMap Text.digitValue?) =
      if digits.length ≤ numeralLimit then .ok (written digits) else .error ⟨digits.length⟩ := by
  have hlength : (digits.filterMap Text.digitValue?).length = digits.length :=
    List.filterMap_length_eq_length.mpr h
  rw [ofDigits, hlength, written]

end Numeral

namespace Bracket

open Pattern

/-! ## The numerals of references -/

/-- The numeral in the id part of a file tag: its first run of digits. -/
def fileNumeral? (part : Text) : Option Text := (digitRun.hits part).head?

/-- The numeral in the id part of a mention: what is left of it without the blanks around it and
a sign, if these are digits. -/
def userNumeral? (part : Text) : Option Text :=
  let body := (Numeral.splitSign (Text.trim part)).2
  if body ≠ [] ∧ ∀ c ∈ body, Text.isDigit c = true then some body else none

def fileNumber? (part : Text) : Option Nat := (fileNumeral? part).map Numeral.written

/-- The id of the user that a mention names, if it is positive. -/
def userNumber? (part : Text) : Option Nat :=
  (userNumeral? part).bind fun digits =>
    if (Numeral.splitSign (Text.trim part)).1 || Numeral.written digits == 0 then none
    else some (Numeral.written digits)

theorem isDigit_of_fileNumeral? {part digits : Text} (h : fileNumeral? part = some digits) :
    ∀ c ∈ digits, Text.isDigit c = true := by
  obtain ⟨t, rest, hread⟩ := reads_of_mem_hits (List.mem_of_mem_head? h)
  simp only [digitRun, run] at hread
  split at hread
  · cases hread
  · rename_i c cs hw
    obtain ⟨rfl, -⟩ := Prod.mk.inj (Option.some.inj hread)
    rw [← hw]
    exact List.all_eq_true.mp List.all_takeWhile

/-- Trimmed, an id part with a numeral is a sign and the digits of the numeral. -/
theorem exists_sign_of_userNumeral? {part digits : Text} (h : userNumeral? part = some digits) :
    Numeral.Digits digits ∧ ∃ sign ∈ Numeral.signs, Text.trim part = sign ++ digits := by
  rw [userNumeral?] at h
  split at h
  · rename_i hdigits
    obtain rfl := Option.some.inj h
    obtain ⟨sign, hsign, hpart⟩ := Numeral.exists_append_splitSign (Text.trim part)
    exact ⟨hdigits, sign, hsign, hpart⟩
  · cases h

/-- A numeral, if there is one, is short enough to be read. -/
def Readable (numeral? : Option Text) : Prop := ∀ digits ∈ numeral?, digits.length ≤ numeralLimit

theorem fileId_eq (part : Text) : fileId part =
    match fileNumeral? part with
    | none => .ok none
    | some digits =>
      if digits.length ≤ numeralLimit then .ok (some (Numeral.written digits))
      else .error ⟨digits.length⟩ := by
  cases hn : fileNumeral? part with
  | none =>
    have hits := List.head?_eq_none_iff.mp hn
    rw [fileId, hits]
  | some digits =>
    have hdigits := isDigit_of_fileNumeral? hn
    obtain ⟨more, hits⟩ := List.head?_eq_some_iff.mp hn
    rw [fileId, hits]
    simp only [Numeral.ofDigits_filterMap hdigits]
    split <;> rfl

theorem userId_eq (part : Text) : userId part =
    match userNumeral? part with
    | none => .ok none
    | some digits =>
      if digits.length ≤ numeralLimit then .ok (userNumber? part) else .error ⟨digits.length⟩ := by
  rw [userId, userNumber?, userNumeral?]
  generalize Numeral.splitSign (Text.trim part) = signed
  obtain ⟨negative, body⟩ := signed
  cases body with
  | nil => rfl
  | cons c body =>
    by_cases hdigits : ∀ d ∈ c :: body, Text.isDigit d = true
    · simp only [Numeral.digits?_eq_some hdigits, Numeral.ofDigits_filterMap hdigits,
        if_pos (And.intro (List.cons_ne_nil c body) hdigits), Option.bind_some]
      split <;> rfl
    · obtain ⟨d, hd, hnot⟩ := not_forall₂.mp hdigits
      have hnone := Numeral.digits?_eq_none hd (by simpa using hnot)
      simp only [hnone, if_neg (fun h : _ ∧ _ => hdigits h.2)]

theorem fileId_ok_iff (part : Text) :
    (∃ id, fileId part = .ok id) ↔ Readable (fileNumeral? part) := by
  rw [fileId_eq]
  cases hn : fileNumeral? part with
  | none => simp [Readable]
  | some digits =>
    by_cases hd : digits.length ≤ numeralLimit
    · simp [Readable, hd]
    · simp [Readable, hd]

theorem fileId_of_readable {part : Text} (h : Readable (fileNumeral? part)) :
    fileId part = .ok (fileNumber? part) := by
  rw [fileId_eq, fileNumber?]
  cases hn : fileNumeral? part with
  | none => rfl
  | some digits => simp [h digits hn]

theorem userId_ok_iff (part : Text) :
    (∃ id, userId part = .ok id) ↔ Readable (userNumeral? part) := by
  rw [userId_eq]
  cases hn : userNumeral? part with
  | none => simp [Readable]
  | some digits =>
    by_cases hd : digits.length ≤ numeralLimit
    · simp [Readable, hd]
    · simp [Readable, hd]

theorem userId_of_readable {part : Text} (h : Readable (userNumeral? part)) :
    userId part = .ok (userNumber? part) := by
  rw [userId_eq]
  cases hn : userNumeral? part with
  | none => simp [userNumber?, hn]
  | some digits => simp [h digits hn]

/-- An id that was read can be written, so the texts for what became of it are never refused. -/
theorem writable_of_fileId {part : Text} {id : Nat} (h : fileId part = .ok (some id)) :
    Numeral.writable id = true := by
  have hreadable := (fileId_ok_iff part).mp ⟨_, h⟩
  rw [fileId_of_readable hreadable] at h
  obtain ⟨digits, hdigits, rfl⟩ := Option.map_eq_some_iff.mp (Except.ok.inj h)
  exact Numeral.writable_written (hreadable digits hdigits)

theorem writable_of_userId {part : Text} {id : Nat} (h : userId part = .ok (some id)) :
    Numeral.writable id = true := by
  have hreadable := (userId_ok_iff part).mp ⟨_, h⟩
  rw [userId_of_readable hreadable] at h
  obtain ⟨digits, hdigits, hid⟩ := Option.bind_eq_some_iff.mp (Except.ok.inj h)
  split at hid
  · cases hid
  · obtain rfl := Option.some.inj hid
    exact Numeral.writable_written (hreadable digits hdigits)

/-! ## All references of a body -/

section

variable {α : Type} {read : α → Except OverlongNumeral (Option Nat)} {l : List α}

theorem readIds_eq_ok {id? : α → Option Nat} (h : ∀ a ∈ l, read a = .ok (id? a)) :
    readIds read l = .ok (l.map fun a => (a, id? a)) := by
  induction l with
  | nil => rfl
  | cons a l ih =>
    rw [readIds_cons_of_ok (h a (List.mem_cons_self ..)),
      ih fun b hb => h b (List.mem_cons_of_mem _ hb)]
    rfl

theorem ok_of_readIds {xs : List (α × Option Nat)} (h : readIds read l = .ok xs) {a : α}
    (ha : a ∈ l) : ∃ id, read a = .ok id := by
  induction l generalizing xs with
  | nil => cases ha
  | cons c l ih =>
    cases hc : read c with
    | error e =>
      rw [readIds_cons_of_error hc] at h
      cases h
    | ok id =>
      rw [readIds_cons_of_ok hc] at h
      cases hl : readIds read l with
      | error e =>
        rw [hl] at h
        cases h
      | ok ys =>
        rcases List.mem_cons.mp ha with rfl | ha
        · exact ⟨id, hc⟩
        · exact ih hl ha

end

def numberedTags (t : Text) : List FileTag :=
  (fileTag.hits t).eraseDups.filter fun tag => (fileNumber? tag.content).isSome

def withFileTokens (t : Text) : Text :=
  Stash.tokensFor emptyFragments.label 0 ((numberedTags t).map fileTag.spelling) t

def tagsWithIds (t : Text) : List (FileTag × Option Nat) :=
  (fileTag.hits t).eraseDups.map fun tag => (tag, fileNumber? tag.content)

def mentionsWithIds (t : Text) : List (Mention × Option Nat) :=
  (mention.hits t).eraseDups.map fun m => (m, userNumber? m.opener.content)

theorem numberedSpellings_tagsWithIds (t : Text) :
    numberedSpellings (tagsWithIds t) = (numberedTags t).map fileTag.spelling := by
  rw [numberedSpellings, tagsWithIds, numberedTags, List.filterMap_map]
  induction (fileTag.hits t).eraseDups with
  | nil => rfl
  | cons tag tags ih =>
    cases hn : fileNumber? tag.content with
    | none =>
      rw [List.filterMap_cons_none (by simp [hn]), List.filter_cons_of_neg (by simp [hn]), ih]
    | some n =>
      rw [List.filterMap_cons_some (b := fileTag.spelling tag) (by simp [hn]),
        List.filter_cons_of_pos (by simp [hn]), ih, List.map_cons]

/-- The numerals of all references that a conversion finds are short enough. -/
structure ReadableIds (source : Text) : Prop where
  files : ∀ tag ∈ fileTag.hits (stashTags emptyTags source).1, Readable (fileNumeral? tag.content)
  users : ∀ m ∈ mention.hits (withFileTokens (stashTags emptyTags source).1),
    Readable (userNumeral? m.opener.content)

theorem fileTags_of_readable {t : Text}
    (h : ∀ tag ∈ fileTag.hits t, Readable (fileNumeral? tag.content)) :
    fileTags t = .ok (tagsWithIds t) :=
  readIds_eq_ok fun tag htag => fileId_of_readable (h tag (List.mem_eraseDups.mp htag))

theorem mentions_of_readable {t : Text}
    (h : ∀ m ∈ mention.hits t, Readable (userNumeral? m.opener.content)) :
    mentions t = .ok (mentionsWithIds t) :=
  readIds_eq_ok fun m hm => userId_of_readable (h m (List.mem_eraseDups.mp hm))

/-- What a conversion finds in a body whose numerals can be read. -/
def resolution (source : Text) : Resolution :=
  let (t, tags) := stashTags emptyTags source
  ⟨tags, tagsWithIds t, mentionsWithIds (withFileTokens t),
    Stash.tokensFor emptyFragments.label (numberedTags t).length
      ((mentionsWithIds (withFileTokens t)).map fun x => mention.spelling x.1) (withFileTokens t)⟩

theorem resolve_of_readable {source : Text} (h : ReadableIds source) :
    resolve source = .ok (resolution source) := by
  have hfiles := fileTags_of_readable h.files
  have hmentions := mentions_of_readable h.users
  have hspelled := numberedSpellings_tagsWithIds (stashTags emptyTags source).1
  unfold withFileTokens at hmentions
  simp only [resolve, bind, Except.bind, pure, Except.pure, hfiles, Except.mapError, hspelled,
    hmentions, List.length_map]
  rfl

theorem readable_of_resolve {source : Text} {r : Resolution} (h : resolve source = .ok r) :
    ReadableIds source := by
  obtain ⟨-, hfiles, hmentions, -⟩ := resolve_eq_ok h
  have hreadable : ∀ tag ∈ fileTag.hits (stashTags emptyTags source).1,
      Readable (fileNumeral? tag.content) := fun tag htag =>
    (fileId_ok_iff _).mp (ok_of_readIds hfiles (List.mem_eraseDups.mpr htag))
  refine ⟨hreadable,
    fun m hm => (userId_ok_iff _).mp (ok_of_readIds hmentions (List.mem_eraseDups.mpr ?_))⟩
  have hids : r.files = tagsWithIds (stashTags emptyTags source).1 := by
    rw [fileTags_of_readable hreadable] at hfiles
    exact (Except.ok.inj hfiles).symm
  rwa [withoutFiles, hids, numberedSpellings_tagsWithIds]

/-- Whatever the lookups do, a conversion succeeds exactly if no reference that it finds has a
numeral of more than 4300 digits. -/
theorem convert_succeeds_iff {σ : Type} (sv : Services σ) (source : Text) (s : σ) :
    (∃ html s', convert sv source s = .ok (html, s')) ↔ ReadableIds source := by
  constructor
  · rintro ⟨html, s', h⟩
    rw [convert_eq_substitute, substitute_eq] at h
    cases hr : resolve source with
    | error e =>
      rw [hr] at h
      cases h
    | ok r => exact readable_of_resolve hr
  · intro h
    rw [convert_eq_substitute, substitute_eq, resolve_of_readable h]
    exact ⟨_, _, rfl⟩

/-! ## A numeral that is too long -/

theorem fileNumeral?_of_digits {digits : Text} (hne : digits ≠ [])
    (h : ∀ c ∈ digits, Text.isDigit c = true) : fileNumeral? digits = some digits := by
  have hread : digitRun.read digits = some (digits, []) := by
    have htake : digits.takeWhile Text.isDigit = digits := List.takeWhile_eq_self_iff.mpr h
    have hdrop : digits.dropWhile Text.isDigit = [] := List.dropWhile_eq_nil_iff.mpr h
    cases digits with
    | nil => exact absurd rfl hne
    | cons c digits => simp only [digitRun, run, htake, hdrop]
  rw [fileNumeral?, hits, pieces_of_read _ hread]
  rfl

theorem not_readable_of_overlong {digits : Text} (h : ∀ c ∈ digits, Text.isDigit c = true)
    (hlong : numeralLimit < digits.length) : ¬ ReadableIds (fileWord ++ digits ++ [']']) := by
  have hne : digits ≠ [] := List.ne_nil_of_length_pos (Nat.zero_lt_of_lt hlong)
  let mark : FileMark := .ofPart digits hne fun c hc => isFileIdCharacter_of_isDigit (h c hc)
  have hstash : stashTags emptyTags mark.source = (mark.source, emptyTags) := by
    apply Stash.stow_of_forall_skip
    rw [hits_of_silent mark.silent_anyTag]
    simp
  have hread : fileTag.read mark.source = some (mark.tag, []) := by
    have hread := mark.always []
    rwa [List.append_nil] at hread
  intro hreadable
  have hmark : mark.tag ∈ fileTag.hits (stashTags emptyTags mark.source).1 := by
    rw [hstash, hits, pieces_of_read _ hread]
    exact List.mem_cons_self ..
  have hshort := hreadable.files mark.tag hmark digits (fileNumeral?_of_digits hne h)
  omega

/-- Five, with leading zeros that make 4301 digits. -/
def paddedFive : Text := List.replicate 4300 '0' ++ ['5']

theorem isDigit_of_mem_paddedFive : ∀ c ∈ paddedFive, Text.isDigit c = true := by
  intro c hc
  rcases List.mem_append.mp hc with hc | hc
  · rw [List.eq_of_mem_replicate hc]
    decide
  · rw [List.mem_singleton.mp hc]
    decide

theorem convert_paddedFive_fails :
    ¬ ∃ html log, convert (.recording findNothing knowNobody)
      ("[DISK FILE ID=".toList ++ paddedFive ++ "]".toList) .empty = .ok (html, log) := by
  have hlong : numeralLimit < paddedFive.length := by
    rw [paddedFive, List.length_append, List.length_replicate]
    exact Nat.lt_succ_self 4300
  have hnot := not_readable_of_overlong isDigit_of_mem_paddedFive hlong
  rintro ⟨html, log, h⟩
  rw [convert_recording] at h
  cases hr : resolve ("[DISK FILE ID=".toList ++ paddedFive ++ "]".toList) with
  | error e =>
    rw [hr] at h
    cases h
  | ok r => exact hnot (readable_of_resolve hr)

end Bracket

end TaskBulletin
