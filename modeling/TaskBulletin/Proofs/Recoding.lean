import TaskBulletin.Proofs.Reading
import TaskBulletin.Bracket.Reference
import TaskBulletin.Text.Spacing

/-!
# Texts under another code for some characters

A recoding writes some characters of a text in another way and leaves the rest
alone. The characters concerned are quiet: no tag name, no digit and no bracket is
among them, nor does a recoding write one, and it writes blanks for blanks only. A
pattern that is built from words, brackets and stretches between them reads a recoded
text at the same places as the text itself, so a pass gives the recoding of what it
gave before.
-/

namespace TaskBulletin

def isPrivateUse (c : Char) : Bool :=
  let n := c.toNat
  (0xE000 ≤ n && n ≤ 0xF8FF) || (0xF0000 ≤ n && n ≤ 0xFFFFD) || (0x100000 ≤ n && n ≤ 0x10FFFD)

/-- The characters that a recoding may write in another way: those that are escaped, line
ends and private-use characters. -/
def isQuiet (c : Char) : Bool :=
  c == '&' || c == '<' || c == '>' || c == '\n' || c == '\r' || isPrivateUse c

/-- What a recoding may write after its first, quiet character: the end of an entity, or of a
line. -/
def codeTail : Text := "ampltg;\n".toList

/-- Another way to write the characters for which `known` holds. -/
structure Recoding where
  code : Char → Text
  known : Char → Prop
  known_of_not_quiet : ∀ {c}, isQuiet c = false → known c
  /-- A character stays, or is quiet and becomes a quiet one and a tail. -/
  same_or_quiet : ∀ {c}, known c → code c = [c] ∨
    isQuiet c = true ∧ ∃ d w, code c = d :: w ∧ isQuiet d = true ∧ ∀ e ∈ w, e ∈ codeTail
  /-- A blank is written as blanks, and nothing else is. -/
  isBlank_code : ∀ {c}, known c → ∀ d ∈ code c, Text.isBlank d = Text.isBlank c

namespace Recoding

def recode (R : Recoding) (t : Text) : Text := t.flatMap R.code

def Knows (R : Recoding) (t : Text) : Prop := ∀ c ∈ t, R.known c

variable (R : Recoding)

@[simp] theorem recode_nil : R.recode [] = [] := rfl

@[simp] theorem recode_cons (c : Char) (t : Text) : R.recode (c :: t) = R.code c ++ R.recode t :=
  List.flatMap_cons

@[simp] theorem recode_append (t u : Text) : R.recode (t ++ u) = R.recode t ++ R.recode u :=
  List.flatMap_append

@[simp] theorem knows_nil : R.Knows [] := by simp [Knows]

@[simp] theorem knows_cons {c : Char} {t : Text} : R.Knows (c :: t) ↔ R.known c ∧ R.Knows t := by
  simp [Knows]

@[simp] theorem knows_append {t u : Text} : R.Knows (t ++ u) ↔ R.Knows t ∧ R.Knows u := by
  simp [Knows, or_imp, forall_and]

variable {R}

theorem code_of_not_quiet {c : Char} (hc : isQuiet c = false) : R.code c = [c] := by
  rcases R.same_or_quiet (R.known_of_not_quiet hc) with h | ⟨h, _⟩
  · exact h
  · rw [hc] at h
    cases h

/-- Every character of the text is written as it is. -/
def Fixes (R : Recoding) (t : Text) : Prop := ∀ c ∈ t, R.code c = [c]

@[simp] theorem fixes_append {t u : Text} : R.Fixes (t ++ u) ↔ R.Fixes t ∧ R.Fixes u := by
  simp [Fixes, or_imp, forall_and]

theorem Fixes.recode_eq {t : Text} (ht : R.Fixes t) : R.recode t = t := by
  induction t with
  | nil => rfl
  | cons c t ih =>
    rw [recode_cons, ht c (List.mem_cons_self ..), ih fun d hd => ht d (List.mem_cons_of_mem _ hd)]
    rfl

theorem fixes_of_not_quiet {t : Text} (ht : ∀ c ∈ t, isQuiet c = false) : R.Fixes t :=
  fun c hc => code_of_not_quiet (ht c hc)

theorem recode_of_not_quiet {t : Text} (ht : ∀ c ∈ t, isQuiet c = false) : R.recode t = t :=
  (fixes_of_not_quiet ht).recode_eq

def same : Recoding where
  code c := [c]
  known _ := True
  known_of_not_quiet _ := trivial
  same_or_quiet _ := .inl rfl
  isBlank_code {c} _ d hd := by rw [List.mem_singleton.mp hd]

@[simp] theorem recode_same (t : Text) : same.recode t = t := Fixes.recode_eq fun _ _ => rfl

theorem knows_same (t : Text) : same.Knows t := fun _ _ => trivial

/-- A text in one code escapes to what it escapes to in another, in a third code, if each of its
characters does. -/
theorem escape_recode {A B : Recoding} {t : Text}
    (h : ∀ c ∈ t, Html.escape (A.code c) = R.recode (Html.escape (B.code c))) :
    Html.escape (A.recode t) = R.recode (Html.escape (B.recode t)) := by
  induction t with
  | nil => rfl
  | cons c t ih =>
    have ih := ih fun d hd => h d (List.mem_cons_of_mem _ hd)
    rw [recode_cons, Html.escape_append, h c (List.mem_cons_self ..), ih, recode_cons,
      Html.escape_append, recode_append]

end Recoding

/-! ## Classes without quiet characters -/

theorem isQuiet_iff {c : Char} : isQuiet c = true ↔
    c.toNat = 38 ∨ c.toNat = 60 ∨ c.toNat = 62 ∨ c.toNat = 10 ∨ c.toNat = 13 ∨
      (57344 ≤ c.toNat ∧ c.toNat ≤ 63743) ∨ (983040 ≤ c.toNat ∧ c.toNat ≤ 1048573) ∨
        (1048576 ≤ c.toNat ∧ c.toNat ≤ 1114109) := by
  have h (d : Char) : c = d ↔ c.toNat = d.toNat := Char.toNat_inj.symm
  simp [isQuiet, isPrivateUse, h, or_assoc]

theorem isQuiet_of_isPrivateUse {c : Char} (h : isPrivateUse c = true) : isQuiet c = true := by
  simp [isQuiet, h]

theorem isBlank_of_isPrivateUse {c : Char} (h : isPrivateUse c = true) :
    Text.isBlank c = false := by
  simp only [isPrivateUse, Bool.or_eq_true, Bool.and_eq_true, decide_eq_true_eq] at h
  simp only [Text.isBlank, Bool.or_eq_false_iff, Bool.and_eq_false_iff, decide_eq_false_iff_not,
    beq_eq_false_iff_ne]
  omega

theorem digitValue?_of_isQuiet {c : Char} (h : isQuiet c = true) : Text.digitValue? c = none := by
  rw [isQuiet_iff] at h
  have hz : ∀ z ∈ Text.digitZeros, 48 ≤ z ∧ (z + 10 ≤ 60 ∨ 63 ≤ z ∧ z + 10 ≤ 57344 ∨
      63744 ≤ z ∧ z + 10 ≤ 983040) := by decide
  rw [Text.digitValue?, Option.map_eq_none_iff, List.find?_eq_none]
  intro z hz' hc
  have := hz z hz'
  simp only [Bool.and_eq_true, decide_eq_true_eq] at hc
  omega

theorem isWordCharacter_of_isQuiet {c : Char} (h : isQuiet c = true) :
    Text.isWordCharacter c = false := by
  rw [isQuiet_iff] at h
  have hr : ∀ r ∈ Text.alphanumericRanges, (r.2 < 60 ∧ 38 < r.1) ∨ 62 < r.1 ∧ r.2 < 57344 ∨
      63743 < r.1 ∧ r.2 < 983040 := by decide +kernel
  have hu : c ≠ '_' := by
    rintro rfl
    revert h
    decide
  simp only [Text.isWordCharacter, Text.isAlphanumeric, Bool.or_eq_false_iff,
    beq_eq_false_iff_ne, List.any_eq_false]
  refine ⟨hu, fun r hr' hc => ?_⟩
  have := hr r hr'
  simp only [Bool.and_eq_true, decide_eq_true_eq] at hc
  omega

theorem isTagLetter_of_isQuiet {c : Char} (h : isQuiet c = true) : Text.isTagLetter c = false := by
  have hc (d : Char) (hd : isQuiet d = false) : c ≠ d := by
    rintro rfl
    rw [h] at hd
    cases hd
  have ha : c.isAlpha = false := by
    rw [isQuiet_iff] at h
    rw [← Bool.not_eq_true]
    intro ha
    change (decide (c.val ≥ 'A'.val ∧ c.val ≤ 'Z'.val) ||
      (decide (c.val ≥ 'a'.val) && decide (c.val ≤ 'z'.val))) = true at ha
    simp only [Bool.or_eq_true, Bool.and_eq_true, decide_eq_true_eq, UInt32.le_iff_toNat_le,
      ge_iff_le] at ha
    change 65 ≤ c.toNat ∧ c.toNat ≤ 90 ∨ 97 ≤ c.toNat ∧ c.toNat ≤ 122 at ha
    omega
  simp [Text.isTagLetter, ha, hc '\u0130' rfl, hc '\u0131' rfl, hc '\u017f' rfl, hc '\u212a' rfl]

/-- No quiet character spells this one. -/
def isLoud (x : Char) : Bool :=
  !isQuiet x && !isQuiet x.toLower && (Text.foldsOnto x).all fun c => !isQuiet c

theorem spells_of_isQuiet {x c : Char} (hx : isLoud x = true) (hc : isQuiet c = true) :
    Text.spells x c = false := by
  simp only [isLoud, Bool.and_eq_true, Bool.not_eq_true', List.all_eq_true] at hx
  have hne (d : Char) (hd : isQuiet d = false) : c ≠ d := by
    rintro rfl
    rw [hc] at hd
    cases hd
  simp only [Text.spells, Bool.or_eq_false_iff, beq_eq_false_iff_ne]
  refine ⟨⟨hne x hx.1.1, hne _ hx.1.2⟩, ?_⟩
  rw [List.contains_eq_mem, decide_eq_false_iff_not]
  exact fun hm => hne c (hx.2 c hm) rfl

end TaskBulletin
