import TaskBulletin.Html.Escape
import TaskBulletin.Proofs.Mirror

/-!
# Stand-ins for the characters that are escaped

Three private-use characters stand for the ampersand and the angle brackets.
Hiding writes the stand-ins in place of the three characters; revealing writes
the entities in place of the stand-ins. Both are recodings, and escaping a text
without stand-ins is revealing what its hidden form escapes to.
-/

namespace TaskBulletin

open Pattern Recoding

/-- Three characters to stand for `&`, `<` and `>`. -/
structure StandIns where
  amp : Char
  lt : Char
  gt : Char
  amp_private : isPrivateUse amp = true
  lt_private : isPrivateUse lt = true
  gt_private : isPrivateUse gt = true
  amp_ne_lt : amp ≠ lt
  amp_ne_gt : amp ≠ gt
  lt_ne_gt : lt ≠ gt

namespace StandIns

def first : StandIns where
  amp := '\ue000'
  lt := '\ue001'
  gt := '\ue002'
  amp_private := by decide
  lt_private := by decide
  gt_private := by decide
  amp_ne_lt := by decide
  amp_ne_gt := by decide
  lt_ne_gt := by decide

variable (S : StandIns)

def hideChar (c : Char) : Char :=
  if c = '&' then S.amp else if c = '<' then S.lt else if c = '>' then S.gt else c

/-- Write the stand-ins for the three characters. -/
def hide (t : Text) : Text := t.map S.hideChar

def revealChar (c : Char) : Text :=
  if c = S.amp then "&amp;".toList else if c = S.lt then "&lt;".toList
  else if c = S.gt then "&gt;".toList else [c]

/-- Write the entities for the stand-ins. -/
def reveal (t : Text) : Text := t.flatMap S.revealChar

/-- None of the stand-ins occurs in the text. -/
def Avoids (t : Text) : Prop := S.amp ∉ t ∧ S.lt ∉ t ∧ S.gt ∉ t

instance (t : Text) : Decidable (S.Avoids t) := inferInstanceAs (Decidable (_ ∧ _ ∧ _))

def isStandIn (c : Char) : Prop := c = S.amp ∨ c = S.lt ∨ c = S.gt

theorem avoids_iff {t : Text} : S.Avoids t ↔ ∀ c ∈ t, ¬ S.isStandIn c := by
  simp only [Avoids, isStandIn, not_or]
  constructor
  · rintro ⟨ha, hl, hg⟩ c hc
    exact ⟨by rintro rfl; exact ha hc, by rintro rfl; exact hl hc, by rintro rfl; exact hg hc⟩
  · intro h
    exact ⟨fun hc => (h _ hc).1 rfl, fun hc => (h _ hc).2.1 rfl, fun hc => (h _ hc).2.2 rfl⟩

variable {S}

theorem isPrivateUse_of_isStandIn {c : Char} (h : S.isStandIn c) : isPrivateUse c = true := by
  rcases h with rfl | rfl | rfl
  · exact S.amp_private
  · exact S.lt_private
  · exact S.gt_private

theorem isBlank_of_isStandIn {c : Char} (h : S.isStandIn c) : Text.isBlank c = false :=
  isBlank_of_isPrivateUse (isPrivateUse_of_isStandIn h)

theorem not_isStandIn {c : Char} (h : isPrivateUse c = false) : ¬ S.isStandIn c := by
  intro hc
  rw [isPrivateUse_of_isStandIn hc] at h
  cases h

/-! ## Hiding -/

variable (S)

theorem hideChar_cases (c : Char) :
    (c = '&' ∧ S.hideChar c = S.amp) ∨ (c = '<' ∧ S.hideChar c = S.lt) ∨
      (c = '>' ∧ S.hideChar c = S.gt) ∨ (c ≠ '&' ∧ c ≠ '<' ∧ c ≠ '>' ∧ S.hideChar c = c) := by
  unfold hideChar
  split_ifs <;> simp_all

def unhideChar (c : Char) : Char :=
  if c = S.amp then '&' else if c = S.lt then '<' else if c = S.gt then '>' else c

theorem unhideChar_hideChar {c : Char} (hc : ¬ S.isStandIn c) :
    S.unhideChar (S.hideChar c) = c := by
  simp only [isStandIn, not_or] at hc
  have h1 := S.amp_ne_lt
  have h2 := S.amp_ne_gt
  have h3 := S.lt_ne_gt
  rcases S.hideChar_cases c with ⟨rfl, h⟩ | ⟨rfl, h⟩ | ⟨rfl, h⟩ | ⟨-, -, -, h⟩
  · rw [h, unhideChar, if_pos rfl]
  · rw [h, unhideChar, if_neg h1.symm, if_pos rfl]
  · rw [h, unhideChar, if_neg h2.symm, if_neg h3.symm, if_pos rfl]
  · rw [h, unhideChar, if_neg hc.1, if_neg hc.2.1, if_neg hc.2.2]

/-- What is said alike of the stand-ins and of the three characters is not changed by hiding. -/
theorem apply_hideChar {α : Type} {f : Char → α} {a : α} (hs : ∀ c, S.isStandIn c → f c = a)
    (hf : ∀ c ∈ "&<>".toList, f c = a) (c : Char) : f (S.hideChar c) = f c := by
  rcases S.hideChar_cases c with ⟨rfl, h⟩ | ⟨rfl, h⟩ | ⟨rfl, h⟩ | ⟨-, -, -, h⟩
  · rw [h, hs _ (.inl rfl), hf _ (by simp)]
  · rw [h, hs _ (.inr (.inl rfl)), hf _ (by simp)]
  · rw [h, hs _ (.inr (.inr rfl)), hf _ (by simp)]
  · rw [h]

/-- Hiding, as a recoding of the texts without stand-ins. -/
def hideCode : Recoding where
  code c := [S.hideChar c]
  known c := ¬ S.isStandIn c
  known_of_not_quiet {c} hc hs := by
    rw [isQuiet_of_isPrivateUse (isPrivateUse_of_isStandIn hs)] at hc
    cases hc
  same_or_quiet {c} _ := by
    rcases S.hideChar_cases c with ⟨rfl, h⟩ | ⟨rfl, h⟩ | ⟨rfl, h⟩ | ⟨-, -, -, h⟩
    · exact .inr ⟨rfl, S.amp, [], by rw [h], isQuiet_of_isPrivateUse S.amp_private, by simp⟩
    · exact .inr ⟨rfl, S.lt, [], by rw [h], isQuiet_of_isPrivateUse S.lt_private, by simp⟩
    · exact .inr ⟨rfl, S.gt, [], by rw [h], isQuiet_of_isPrivateUse S.gt_private, by simp⟩
    · exact .inl (by rw [h])
  isBlank_code {c} _ d hd := by
    rw [List.mem_singleton.mp hd, S.apply_hideChar (fun _ => isBlank_of_isStandIn) (by decide)]

theorem hideCode_recode (t : Text) : S.hideCode.recode t = S.hide t := by
  induction t with
  | nil => rfl
  | cons c t ih => rw [recode_cons, ih]; rfl

theorem hideCode_knows {t : Text} : S.hideCode.Knows t ↔ S.Avoids t := S.avoids_iff.symm

theorem keeps_line_hideCode : Keeps S.hideCode (· != '\n') := by
  refine keeps_of_mem fun c _ d hd => ?_
  rw [List.mem_singleton.mp hd]
  refine S.apply_hideChar (f := (· != '\n')) (a := true) (fun e he => ?_) (by decide) c
  rw [bne_iff_ne]
  rintro rfl
  exact not_isStandIn (by decide) he

/-! ## Revealing -/

theorem revealChar_cases (c : Char) :
    (c = S.amp ∧ S.revealChar c = "&amp;".toList) ∨ (c = S.lt ∧ S.revealChar c = "&lt;".toList) ∨
      (c = S.gt ∧ S.revealChar c = "&gt;".toList) ∨ (¬ S.isStandIn c ∧ S.revealChar c = [c]) := by
  unfold revealChar isStandIn
  split_ifs <;> simp_all

def revealCode : Recoding where
  code := S.revealChar
  known _ := True
  known_of_not_quiet _ := trivial
  same_or_quiet {c} _ := by
    rcases S.revealChar_cases c with ⟨rfl, h⟩ | ⟨rfl, h⟩ | ⟨rfl, h⟩ | ⟨-, h⟩
    · exact .inr ⟨isQuiet_of_isPrivateUse S.amp_private, '&', "amp;".toList, h, rfl, by decide⟩
    · exact .inr ⟨isQuiet_of_isPrivateUse S.lt_private, '&', "lt;".toList, h, rfl, by decide⟩
    · exact .inr ⟨isQuiet_of_isPrivateUse S.gt_private, '&', "gt;".toList, h, rfl, by decide⟩
    · exact .inl h
  isBlank_code {c} _ := by
    rcases S.revealChar_cases c with ⟨rfl, h⟩ | ⟨rfl, h⟩ | ⟨rfl, h⟩ | ⟨-, h⟩
    · rw [h, isBlank_of_isStandIn (.inl rfl)]
      decide
    · rw [h, isBlank_of_isStandIn (.inr (.inl rfl))]
      decide
    · rw [h, isBlank_of_isStandIn (.inr (.inr rfl))]
      decide
    · rw [h]
      simp

theorem revealCode_recode (t : Text) : S.revealCode.recode t = S.reveal t := rfl

theorem revealChar_of_not_isStandIn {c : Char} (hc : ¬ S.isStandIn c) : S.revealChar c = [c] := by
  rcases S.revealChar_cases c with ⟨rfl, -⟩ | ⟨rfl, -⟩ | ⟨rfl, -⟩ | ⟨-, h⟩
  · exact absurd (.inl rfl) hc
  · exact absurd (.inr (.inl rfl)) hc
  · exact absurd (.inr (.inr rfl)) hc
  · exact h

theorem fixes_revealCode {t : Text} (ht : S.Avoids t) : S.revealCode.Fixes t :=
  fun c hc => S.revealChar_of_not_isStandIn (S.avoids_iff.mp ht c hc)

theorem escapeChar_of_isPrivateUse {c : Char} (h : isPrivateUse c = true) :
    Html.escapeChar c = [c] := by
  refine Html.escapeChar_of_ne ?_ ?_ ?_ <;>
    · rintro rfl
      revert h
      decide

/-- Escaping writes an entity exactly where a stand-in is revealed. -/
theorem reveal_escape_hideChar {c : Char} (hc : ¬ S.isStandIn c) :
    S.reveal (Html.escapeChar (S.hideChar c)) = Html.escapeChar c := by
  have hr (d : Char) : S.reveal [d] = S.revealChar d := List.flatMap_singleton ..
  rcases S.hideChar_cases c with ⟨rfl, h⟩ | ⟨rfl, h⟩ | ⟨rfl, h⟩ | ⟨h1, h2, h3, h⟩
  · rw [h, escapeChar_of_isPrivateUse S.amp_private, hr, revealChar, if_pos rfl]
    rfl
  · rw [h, escapeChar_of_isPrivateUse S.lt_private, hr, revealChar, if_neg S.amp_ne_lt.symm,
      if_pos rfl]
    rfl
  · rw [h, escapeChar_of_isPrivateUse S.gt_private, hr, revealChar, if_neg S.amp_ne_gt.symm,
      if_neg S.lt_ne_gt.symm, if_pos rfl]
    rfl
  · rw [h, Html.escapeChar_of_ne h1 h2 h3]
    rw [hr, S.revealChar_of_not_isStandIn hc]

end StandIns

end TaskBulletin
