import TaskBulletin.Proofs.Asking
import TaskBulletin.Proofs.NestedToken
import TaskBulletin.Proofs.Numerals

/-!
# Bodies made of text and references

A body may consist of runs of text, file tags and mentions, with runs of text and file
tags again in the label of a mention. What it means is read off directly: a file tag gives
what its lookup answers, and a mention its link, or else its label.
-/

namespace TaskBulletin

theorem Text.forall₂_spells_of_toUpper {name s : Text} (hn : ∀ c ∈ name, c ∈ capitals)
    (hs : s.map Char.toUpper = name) : List.Forall₂ (fun x c => spells x c = true) name s := by
  subst hs
  induction s with
  | nil => exact .nil
  | cons c s ih =>
    rw [List.map_cons] at hn ⊢
    have hc := hn _ (List.mem_cons_self ..)
    refine .cons ?_ (ih fun d hd => hn d (List.mem_cons_of_mem _ hd))
    rw [spells_capital hc hc, beq_self_eq_true]

namespace Bracket

open Pattern

/-! ## Markup -/

/-- A run of text or a file tag. -/
inductive Snippet where
  | text (run : Run)
  | file (mark : FileMark)

structure UserMark where
  opener : Spelled "USER".toList
  idPart : Run
  label : List Snippet
  closer : Spelled "USER".toList
  one_line : ∀ run, .text run ∈ label → '\n' ∉ run.text

/-- A part of a body that stands by itself. -/
inductive Passage where
  | snippet (s : Snippet)
  | mention (m : UserMark)

def Snippet.source : Snippet → Text
  | text run => run.text
  | file mark => mark.source

def UserMark.openingTag (m : UserMark) : Text :=
  Bracket.openingTag m.opener.text ('=' :: m.idPart.text)

def UserMark.source (m : UserMark) : Text :=
  m.openingTag ++ m.label.flatMap Snippet.source ++ closingTag m.closer.text

def Passage.source : Passage → Text
  | snippet s => s.source
  | mention m => m.source

def Snippet.marks : Snippet → List FileMark
  | text _ => []
  | file mark => [mark]

def Passage.marks : Passage → List FileMark
  | snippet s => s.marks
  | mention m => m.label.flatMap Snippet.marks

/-! ## Meaning -/

/-- The id that a file tag names: the number that its first run of digits writes. -/
def FileMark.number? (mark : FileMark) : Option Nat := fileNumber? mark.tag.content

def UserMark.number? (m : UserMark) : Option Nat := userNumber? m.idPart.text

section

variable (files : Int → Except Text (Option DiskFile)) (users : Int → Except Text Text)

/-- A file tag without a number means itself, every other what the lookup answers. -/
def FileMark.html (mark : FileMark) : Text :=
  match mark.number? with
  | none => mark.source
  | some id =>
    match files id with
    | .ok (some file) => Html.anchor file.url file.name
    | .ok none => "[File ".toList ++ Text.ofNat id ++ " not found]".toList
    | .error _ => "[Error loading file ".toList ++ Text.ofNat id ++ "]".toList

def Snippet.html : Snippet → Text
  | text run => Html.escape run.text
  | file mark => mark.html files

/-- Is there nothing but blanks between the tags of a mention? -/
def UserMark.isBlank (m : UserMark) : Bool := Text.blank (m.label.flatMap Snippet.source)

/-- What stands for a mention in place of its label: the link of a user who is known, and a word on
the others whose label is blank. -/
def UserMark.instead? (m : UserMark) : Option Text :=
  match m.number? with
  | none => none
  | some id =>
    match users id with
    | .ok link =>
      if link ≠ [] ∧ link ≠ Text.ofNat id then some link
      else if m.isBlank then some (Text.ofNat id) else none
    | .error _ =>
      if m.isBlank then some ("[Error loading user ".toList ++ Text.ofNat id ++ "]".toList)
        else none

def UserMark.html (m : UserMark) : Text :=
  match m.instead? users with
  | some t => t
  | none => m.label.flatMap (Snippet.html files)

def Passage.html : Passage → Text
  | snippet s => s.html files
  | mention m => m.html files users

/-! ## Meaning with marks around references -/

def Snippet.signs : Snippet → List Sign
  | text run => (Html.escape run.text).map .char
  | file mark =>
    match mark.number? with
    | none => mark.source.map .char
    | some _ => .opens :: ((mark.html files).map .char ++ [.closes])

def UserMark.inner (m : UserMark) : List Sign :=
  match m.instead? users with
  | some t => t.map .char
  | none => m.label.flatMap (Snippet.signs files)

def Passage.signs : Passage → List Sign
  | snippet s => s.signs files
  | mention m => .opens :: (m.inner files users ++ [.closes])

theorem Snippet.text_signs (s : Snippet) : Sign.text (s.signs files) = s.html files := by
  cases s with
  | text run => exact Sign.text_map_char _
  | file mark =>
    rw [signs, html]
    cases hn : mark.number? with
    | none => simp [FileMark.html, hn]
    | some id => simp

theorem UserMark.text_inner (m : UserMark) :
    Sign.text (m.inner files users) = m.html files users := by
  rw [inner, html]
  cases m.instead? users with
  | some t => exact Sign.text_map_char t
  | none => simp only [Sign.text_flatMap, Snippet.text_signs]

theorem Passage.text_signs (p : Passage) :
    Sign.text (p.signs files users) = p.html files users := by
  cases p with
  | snippet s => exact s.text_signs files
  | mention m => simp [signs, html, UserMark.text_inner]

def FileMark.supplied (mark : FileMark) : List Text :=
  match mark.number? with
  | none => []
  | some id =>
    match files id with
    | .ok (some file) => [file.url, file.name]
    | _ => []

def UserMark.supplied (m : UserMark) : List Text :=
  match m.number? with
  | none => []
  | some id =>
    match users id with
    | .ok link => [link]
    | .error _ => []

/-- The texts that the lookups supply for a passage: URLs, names and links. -/
def Passage.supplied (p : Passage) : List Text :=
  p.marks.flatMap (FileMark.supplied files) ++
    match p with
    | snippet _ => []
    | mention m => m.supplied users

end

section

variable {files : Int → Except Text (Option DiskFile)} {users : Int → Except Text Text}

variable (files) in
/-- A file tag means itself, an anchor of what the lookup supplies, or a notice. -/
theorem FileMark.html_cases (mark : FileMark) :
    mark.html files = mark.source ∨
    (∃ file : DiskFile, mark.supplied files = [file.url, file.name] ∧
      mark.html files = Html.anchor file.url file.name) ∨
    ∃ id, mark.html files = "[File ".toList ++ Text.ofNat id ++ " not found]".toList ∨
      mark.html files = "[Error loading file ".toList ++ Text.ofNat id ++ "]".toList := by
  rw [html, supplied]
  cases hn : mark.number? with
  | none => exact .inl rfl
  | some id =>
    right
    cases hf : files id with
    | error reason => exact .inr ⟨id, .inr (by simp only [hf])⟩
    | ok answer =>
      cases answer with
      | none => exact .inr ⟨id, .inl (by simp only [hf])⟩
      | some file => exact .inl ⟨file, by simp only [hf], by simp only [hf]⟩

/-- A link that the lookup supplies stands for a mention, or a number, or a notice. -/
theorem UserMark.instead?_cases {m : UserMark} {t : Text} (h : m.instead? users = some t) :
    t ∈ m.supplied users ∨
      ∃ id, t = Text.ofNat id ∨ t =
        "[Error loading user ".toList ++ Text.ofNat id ++ "]".toList := by
  rw [instead?] at h
  rw [supplied]
  cases hn : m.number? with
  | none =>
    rw [hn] at h
    cases h
  | some id =>
    simp only [hn] at h ⊢
    cases hu : users id with
    | error reason =>
      simp only [hu, Option.ite_none_right_eq_some, Option.some.injEq] at h
      exact .inr ⟨id, .inr h.2.symm⟩
    | ok link =>
      simp only [hu] at h
      split at h
      · exact .inl (List.mem_singleton.mpr (Option.some.inj h).symm)
      · rw [Option.ite_none_right_eq_some] at h
        exact .inr ⟨id, .inl (Option.some.inj h.2).symm⟩

end

def Passage.numerals (p : Passage) : List Text :=
  p.marks.filterMap (fun mark => fileNumeral? mark.tag.content) ++
    match p with
    | snippet _ => []
    | mention m => (userNumeral? m.idPart.text).toList

/-! ## Tags of mentions -/

section

variable (s : Spelled "USER".toList)

theorem Spelled.spells : List.Forall₂ (fun x c => Text.spells x c = true) "USER".toList s.text :=
  Text.forall₂_spells_of_toUpper (by decide) s.upper

theorem Spelled.toUpper_mem : ∀ c ∈ s.text, c.toUpper ∈ Text.capitals :=
  Text.toUpper_mem_capitals (by decide) s.upper

theorem Spelled.notMem {c : Char} (hc : c.toUpper ∉ Text.capitals) : c ∉ s.text :=
  notMem_of_toUpper_mem s.toUpper_mem hc

theorem Spelled.exists_cons : ∃ d t, s.text = d :: t ∧ (d = 'U' ∨ d = 'u') := by
  obtain ⟨d, t, hd, -, ht⟩ := List.forall₂_cons_left_iff.mp s.spells
  have hspells : Text.spells 'U' d = true := hd
  have hlower : 'U'.toLower = 'u' := by decide
  exact ⟨d, t, ht, by simpa [Text.spells, Text.foldsOnto, hlower] using hspells⟩

theorem Spelled.isTagLetter : ∀ c ∈ s.text, Text.isTagLetter c = true := by
  intro c hc
  have hall : ∀ d ∈ Text.capitals, Text.isTagLetter d = true ∧ Text.isTagLetter d.toLower =
      true := by
    decide
  obtain ⟨hu, hl⟩ := hall _ (s.toUpper_mem c hc)
  rcases Text.eq_toUpper_or_eq_toLower c with h | h
  · rw [h, hu]
  · rw [h, hl]

/-- The tag of a user is a bracket tag only if it is the tag of a mention. -/
theorem Spelled.isMentionBody_of_isTagBody {v : Text} (hv : v = [] ∨ ∃ value, v = '=' :: value)
    {body : Text} (hbody : dropSlash body = s.text ++ v) (h : isTagBody body = true) :
    isMentionBody body = true := by
  have hdrop : (s.text ++ v).dropWhile Text.isTagLetter = v := by
    rw [List.dropWhile_append_of_pos s.isTagLetter]
    have hmark : Text.isTagLetter '=' = false := by decide
    rcases hv with rfl | ⟨value, rfl⟩
    · rfl
    · exact List.dropWhile_cons_of_neg (by simp [hmark])
  rw [isTagBody, hbody, hdrop, Bool.and_eq_true] at h
  rw [isMentionBody, hbody, readWord_of_forall₂ s.spells]
  exact h.2

end

end Bracket

end TaskBulletin
