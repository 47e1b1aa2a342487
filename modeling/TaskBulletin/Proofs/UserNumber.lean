import TaskBulletin.Proofs.Numerals
import TaskBulletin.Proofs.Trimming
import Mathlib.Data.Nat.Digits.Defs

/-!
# The numbers that mentions name

The id part of a mention is read by its own grammar: without the blanks around it an optional
sign and digits of any script. The reader of whole numbers takes more, blanks around a number
and underscores between its digits, but it takes all of these and reads the same number in
them. So an id part names a user exactly if it writes a positive number by places.
-/

namespace TaskBulletin

namespace Text

theorem not_isBlank_of_isDigit {c : Char} (h : isDigit c = true) : isBlank c = false := by
  have hall : ∀ z ∈ digitZeros, ∀ i < 10, isBlank (Char.ofNat (z + i)) = false := by decide +kernel
  rw [isDigit, digitValue?, Option.isSome_map, List.find?_isSome] at h
  obtain ⟨z, hz, hc⟩ := h
  simp only [Bool.and_eq_true, decide_eq_true_eq] at hc
  have hblank := hall z hz (c.toNat - z) (by omega)
  rwa [Nat.add_sub_cancel' hc.1, Char.ofNat_toNat] at hblank

end Text

namespace Numeral

/-! ## Digits and places -/

/-- One or more decimal digits, each of any script, that write the number by their places. -/
def Writes (t : Text) (n : Nat) : Prop :=
  t ≠ [] ∧ ∃ ds, List.Forall₂ (fun c d => Text.digitValue? c = some d) t ds ∧
    Nat.ofDigits 10 ds.reverse = n

theorem value_eq_ofDigits (ds : List Nat) : value ds = Nat.ofDigits 10 ds.reverse := by
  rw [value, Nat.ofDigits_eq_foldr, List.foldr_reverse]
  congr
  funext n d
  exact Nat.add_comm ..

theorem forall₂_digitValue_iff {t : Text} {ds : List Nat} :
    List.Forall₂ (fun c d => Text.digitValue? c = some d) t ds ↔
      (∀ c ∈ t, Text.isDigit c = true) ∧ t.filterMap Text.digitValue? = ds := by
  constructor
  · intro h
    induction h with
    | nil => exact ⟨by simp, rfl⟩
    | cons hd _ ih =>
      refine ⟨List.forall_mem_cons.mpr ⟨?_, ih.1⟩, ?_⟩
      · rw [Text.isDigit, hd]
        rfl
      · rw [List.filterMap_cons_some hd, ih.2]
  · rintro ⟨h, rfl⟩
    induction t with
    | nil => exact .nil
    | cons c t ih =>
      obtain ⟨hc, ht⟩ := List.forall_mem_cons.mp h
      obtain ⟨d, hd⟩ := Option.isSome_iff_exists.mp hc
      rw [List.filterMap_cons_some hd]
      exact .cons hd (ih ht)

theorem writes_iff {t : Text} {n : Nat} : Writes t n ↔ Digits t ∧ written t = n := by
  rw [Writes, Digits, written, value_eq_ofDigits, and_assoc]
  refine and_congr_right fun _ => ?_
  constructor
  · rintro ⟨ds, hds, hn⟩
    obtain ⟨hdigits, rfl⟩ := forall₂_digitValue_iff.mp hds
    exact ⟨hdigits, hn⟩
  · rintro ⟨hdigits, hn⟩
    exact ⟨_, forall₂_digitValue_iff.mpr ⟨hdigits, rfl⟩, hn⟩

theorem Digits.writes {t : Text} (h : Digits t) : Writes t (written t) := writes_iff.mpr ⟨h, rfl⟩

theorem Digits.append {t u : Text} (ht : Digits t) (hu : Digits u) : Digits (t ++ u) :=
  ⟨by simp [ht.1], List.forall_mem_append.mpr ⟨ht.2, hu.2⟩⟩

theorem Digits.notMem {t : Text} (h : Digits t) {c : Char} (hc : Text.isDigit c = false) :
    c ∉ t := by
  intro hm
  rw [h.2 c hm] at hc
  cases hc

/-! ## Signs -/

def SignedDigits (t : Text) : Prop := ∃ sign ∈ signs, ∃ digits, Digits digits ∧ t = sign ++ digits

def signedNumber (sign digits : Text) : Int := signed (sign == ['-']) (written digits)

theorem Digits.splitSign_append {digits sign : Text} (h : Digits digits) (hsign : sign ∈ signs)
    (rest : Text) : splitSign (sign ++ (digits ++ rest)) = (sign == ['-'], digits ++ rest) := by
  have hminus : '-' ∉ digits := h.notMem (by decide)
  have hplus : '+' ∉ digits := h.notMem (by decide)
  obtain ⟨c, t, rfl⟩ := List.exists_cons_of_ne_nil h.1
  have hc := List.mem_cons_self (a := c) (l := t)
  rcases mem_signs_iff.mp hsign with rfl | rfl | rfl
  · exact splitSign_cons (ne_of_mem_of_not_mem hc hminus) (ne_of_mem_of_not_mem hc hplus) _
  · rfl
  · rfl

theorem Digits.splitSign_eq {digits sign : Text} (h : Digits digits) (hsign : sign ∈ signs) :
    splitSign (sign ++ digits) = (sign == ['-'], digits) := by
  have hsplit := h.splitSign_append hsign []
  rwa [List.append_nil] at hsplit

/-! ## The reader of whole numbers -/

theorem groupedDigits?_cons {c d : Char} (hd : d ≠ '_') (t : Text) :
    groupedDigits? (c :: d :: t) = (Text.digitValue? c).bind fun n =>
      (groupedDigits? (d :: t)).map (n :: ·) := by
  rw [groupedDigits?]
  · cases Text.digitValue? c with
    | none => rfl
    | some n => cases groupedDigits? (d :: t) <;> rfl
  · simp
  · simpa using hd

/-- Digits are read one after another, up to the last one, which is read with what follows it. -/
theorem Digits.groupedDigits?_append {t rest : Text} {ds : List Nat} (ht : Digits t)
    (hlast : ∀ c n, Text.digitValue? c = some n → groupedDigits? (c :: rest) = some (n :: ds)) :
    groupedDigits? (t ++ rest) = some (t.filterMap Text.digitValue? ++ ds) := by
  obtain ⟨hne, ht⟩ := ht
  induction t with
  | nil => exact absurd rfl hne
  | cons c t ih =>
    obtain ⟨hc, ht⟩ := List.forall_mem_cons.mp ht
    obtain ⟨n, hn⟩ := Option.isSome_iff_exists.mp hc
    rw [List.filterMap_cons_some hn]
    cases t with
    | nil => exact hlast c n hn
    | cons d t =>
      have hd : d ≠ '_' := by
        rintro rfl
        exact absurd (ht '_' (List.mem_cons_self ..)) (by decide)
      have hrest := ih (List.cons_ne_nil d t) ht
      rw [List.cons_append] at hrest
      rw [List.cons_append, List.cons_append, groupedDigits?_cons hd, hn, hrest]
      rfl

theorem Digits.groupedDigits?_eq {t : Text} (ht : Digits t) :
    groupedDigits? t = some (t.filterMap Text.digitValue?) := by
  have hall : groupedDigits? (t ++ []) = some (t.filterMap Text.digitValue? ++ []) :=
    ht.groupedDigits?_append fun c n hn => by rw [groupedDigits?, hn]; rfl
  rwa [List.append_nil, List.append_nil] at hall

theorem Digits.groupedDigits?_underscore {t u : Text} (ht : Digits t) (hu : Digits u) :
    groupedDigits? (t ++ '_' :: u) = some ((t ++ u).filterMap Text.digitValue?) := by
  rw [List.filterMap_append]
  refine ht.groupedDigits?_append fun c n hn => ?_
  rw [groupedDigits?, hn, hu.groupedDigits?_eq]
  rfl

theorem trimPadding_eq_self {t : Text} (h : ∀ c ∈ t, Text.isBlank c = false) :
    trimPadding t = t := by
  have hpad : ∀ c ∈ t, isPadding c = false := fun c hc => by rw [isPadding, h c hc, Bool.false_and]
  have hstart : t.dropWhile isPadding = t :=
    List.dropWhile_eq_self_iff.mpr fun hl => by simp [hpad _ (List.getElem_mem hl)]
  rw [trimPadding, hstart]
  exact List.rdropWhile_eq_self_iff.mpr fun hne => by simp [hpad _ (List.getLast_mem hne)]

section

variable {sign body : Text}

theorem readInt?_of_groupedDigits? {ds : List Nat}
    (hblank : ∀ c ∈ sign ++ body, Text.isBlank c = false)
    (hsplit : splitSign (sign ++ body) = (sign == ['-'], body))
    (hds : groupedDigits? body = some ds) (hlength : ds.length ≤ numeralLimit) :
    readInt? (sign ++ body) = some (signed (sign == ['-']) (value ds)) := by
  rw [readInt?, trimPadding_eq_self hblank, hsplit]
  simp only [hds, Option.map_some, ofDigits, if_pos hlength]

theorem not_isBlank_of_mem_sign (hsign : sign ∈ signs) : ∀ c ∈ sign, Text.isBlank c = false := by
  revert sign
  decide

variable {digits : Text} (h : Digits digits)
include h

theorem Digits.length_filterMap : (digits.filterMap Text.digitValue?).length = digits.length :=
  List.filterMap_length_eq_length.mpr h.2

theorem Digits.readInt?_eq (hsign : sign ∈ signs) (hlength : digits.length ≤ numeralLimit) :
    readInt? (sign ++ digits) = some (signedNumber sign digits) := by
  refine readInt?_of_groupedDigits? (fun c hc => ?_) (h.splitSign_eq hsign) h.groupedDigits?_eq ?_
  · rcases List.mem_append.mp hc with hc | hc
    · exact not_isBlank_of_mem_sign hsign c hc
    · exact Text.not_isBlank_of_isDigit (h.2 c hc)
  · rwa [h.length_filterMap]

theorem Digits.readInt?_underscore {more : Text} (hmore : Digits more)
    (hlength : (digits ++ more).length ≤ numeralLimit) :
    readInt? (digits ++ '_' :: more) = some (written (digits ++ more)) := by
  have hall := h.append hmore
  have hblank : ∀ c ∈ digits ++ '_' :: more, Text.isBlank c = false := by
    intro c hc
    rcases List.mem_append.mp hc with hc | hc
    · exact Text.not_isBlank_of_isDigit (h.2 c hc)
    · rcases List.mem_cons.mp hc with rfl | hc
      · decide
      · exact Text.not_isBlank_of_isDigit (hmore.2 c hc)
  have hread : readInt? ([] ++ (digits ++ '_' :: more)) =
      some (signed ([] == ['-']) (written (digits ++ more))) :=
    readInt?_of_groupedDigits? hblank (h.splitSign_append (by decide) _)
      (h.groupedDigits?_underscore hmore) (by rwa [hall.length_filterMap])
  exact hread

end

end Numeral

namespace Bracket

/-! ## Id parts -/

/-- The id part without the blanks around it is an optional plus and the digits of a positive
number. -/
def NamesUser (part : Text) (k : Nat) : Prop :=
  0 < k ∧ ∃ sign ∈ [[], ['+']], ∃ digits, Numeral.Writes digits k ∧ Text.trim part = sign ++ digits

/-- An underscore, a blank or a second sign. -/
def HasStray (t : Text) : Prop :=
  '_' ∈ t ∨ (∃ c ∈ t, Text.isBlank c = true) ∨ 2 ≤ t.countP fun c => c == '+' || c == '-'

section

variable {part sign digits : Text} (h : Numeral.Digits digits) (hsign : sign ∈ Numeral.signs)
  (hpart : Text.trim part = sign ++ digits)
include h hsign hpart

theorem userNumeral?_of_signed : userNumeral? part = some digits := by
  simp only [userNumeral?, hpart, h.splitSign_eq hsign]
  exact if_pos h

/-- A sign and digits name the user with the number they write, if it is positive. -/
theorem userNumber?_of_signed :
    userNumber? part =
      if 0 < Numeral.signedNumber sign digits then some (Numeral.signedNumber sign digits).toNat
      else none := by
  rw [userNumber?, userNumeral?_of_signed h hsign hpart, hpart, h.splitSign_eq hsign,
    Option.bind_some, Numeral.signedNumber]
  cases sign == ['-'] with
  | false =>
    rcases Nat.eq_zero_or_pos (Numeral.written digits) with hzero | hpos
    · simp [hzero, Numeral.signed]
    · simp [Numeral.signed, hpos, Nat.pos_iff_ne_zero.mp hpos]
  | true => simp [Numeral.signed]

end

theorem userNumber?_eq_some_iff {part : Text} {k : Nat} :
    userNumber? part = some k ↔ NamesUser part k := by
  constructor
  · intro h
    obtain ⟨digits, hnumeral, -⟩ := Option.bind_eq_some_iff.mp h
    obtain ⟨hdigits, sign, hsign, hpart⟩ := exists_sign_of_userNumeral? hnumeral
    rw [userNumber?_of_signed hdigits hsign hpart] at h
    split at h
    · rename_i hpos
      obtain rfl := Option.some.inj h
      rcases Numeral.mem_signs_iff.mp hsign with rfl | rfl | rfl
      · exact ⟨Int.natCast_pos.mp hpos, [], by decide, digits, hdigits.writes, hpart⟩
      · exact ⟨Int.natCast_pos.mp hpos, ['+'], by decide, digits, hdigits.writes, hpart⟩
      · have hneg : 0 < -(Numeral.written digits : Int) := hpos
        omega
    · cases h
  · rintro ⟨hpos, sign, hsign, digits, hwrites, hpart⟩
    obtain ⟨hdigits, rfl⟩ := Numeral.writes_iff.mp hwrites
    have hplus : ∀ sign ∈ [[], ['+']], sign ∈ Numeral.signs ∧ (sign == ['-']) = false := by decide
    obtain ⟨hsigned, hminus⟩ := hplus sign hsign
    rw [userNumber?_of_signed hdigits hsigned hpart, Numeral.signedNumber, hminus]
    exact if_pos (Int.natCast_pos.mpr hpos)

theorem NamesUser.not_hasStray {part : Text} {k : Nat} (h : NamesUser part k) :
    ¬ HasStray (Text.trim part) := by
  obtain ⟨-, sign, hsign, digits, hwrites, hpart⟩ := h
  obtain ⟨hdigits, -⟩ := Numeral.writes_iff.mp hwrites
  have hclean : ∀ sign ∈ [[], ['+']], '_' ∉ sign ∧ (∀ c ∈ sign, Text.isBlank c = false) ∧
      (sign.countP fun c => c == '+' || c == '-') ≤ 1 := by decide
  obtain ⟨hplain, hsolid, hsingle⟩ := hclean sign hsign
  rw [hpart]
  rintro (hunderscore | ⟨c, hc, hblank⟩ | hcount)
  · rcases List.mem_append.mp hunderscore with hm | hm
    · exact hplain hm
    · exact hdigits.notMem (by decide) hm
  · rcases List.mem_append.mp hc with hm | hm
    · rw [hsolid c hm] at hblank
      cases hblank
    · rw [Text.not_isBlank_of_isDigit (hdigits.2 c hm)] at hblank
      cases hblank
  · have hnone : (digits.countP fun c => c == '+' || c == '-') = 0 := by
      rw [List.countP_eq_zero]
      intro c hc
      have hplus : c ≠ '+' := fun h => hdigits.notMem (by decide) (h ▸ hc)
      have hminus : c ≠ '-' := fun h => hdigits.notMem (by decide) (h ▸ hc)
      simp [hplus, hminus]
    rw [List.countP_append, hnone] at hcount
    omega

/-- An id part of at most 4300 characters without the blanks around it is read, and names exactly
the user whose positive number it writes. An optional sign and digits are read as the reader of
whole numbers reads them; nothing else names a user, also where that reader would take it, such as
underscores between digits. -/
theorem userId_grammar {part : Text} (hlength : (Text.trim part).length ≤ numeralLimit) :
    (∃ id, userId part = .ok id ∧ ∀ k, id = some k ↔ NamesUser part k) ∧
      (Numeral.SignedDigits (Text.trim part) → ∃ n, Numeral.readInt? (Text.trim part) = some n ∧
        userId part = .ok (if 0 < n then some n.toNat else none)) ∧
      (HasStray (Text.trim part) → userId part = .ok none) ∧
      ∀ t u, Numeral.Digits t → Numeral.Digits u → Text.trim part = t ++ '_' :: u →
        ∃ n, Numeral.Writes (t ++ u) n ∧ Numeral.readInt? (Text.trim part) = some (n : Int) := by
  have hreadable : Readable (userNumeral? part) := by
    intro digits hnumeral
    obtain ⟨-, sign, -, hpart⟩ := exists_sign_of_userNumeral? hnumeral
    rw [hpart, List.length_append] at hlength
    omega
  have hread := userId_of_readable hreadable
  refine ⟨⟨_, hread, fun k => userNumber?_eq_some_iff⟩, ?_, ?_, ?_⟩
  · rintro ⟨sign, hsign, digits, hdigits, hpart⟩
    have hshort : digits.length ≤ numeralLimit := by
      rw [hpart, List.length_append] at hlength
      omega
    refine ⟨_, hpart ▸ hdigits.readInt?_eq hsign hshort, ?_⟩
    rw [hread, userNumber?_of_signed hdigits hsign hpart]
  · intro hstray
    have hnone : userNumber? part = none := by
      rw [Option.eq_none_iff_forall_ne_some]
      exact fun k hk => (userNumber?_eq_some_iff.mp hk).not_hasStray hstray
    rw [hread, hnone]
  · intro t u ht hu hpart
    have hshort : (t ++ u).length ≤ numeralLimit := by
      rw [hpart, List.length_append, List.length_cons] at hlength
      rw [List.length_append]
      omega
    exact ⟨_, (ht.append hu).writes, hpart ▸ ht.readInt?_underscore hu hshort⟩

/-- Blanks around a plus, and digits of two scripts with a leading zero. -/
def mixedId : Text := "\u2003+0\u06637\t".toList

theorem userId_grammar_mixedScripts :
    (Text.trim mixedId).length ≤ numeralLimit ∧ NamesUser mixedId 37 ∧ userId mixedId =
      .ok (some 37) ∧
      (Text.trim "1_0 ".toList).length ≤ numeralLimit ∧ Numeral.readInt? "1_0".toList = some 10 ∧
      userId "1_0 ".toList = .ok none := by
  have hmixed : (Text.trim mixedId).length ≤ numeralLimit := by decide
  have hgrouped : (Text.trim "1_0 ".toList).length ≤ numeralLimit := by decide
  have hread : userId mixedId = .ok (some 37) := rfl
  have hten : Numeral.readInt? "1_0".toList = some 10 := rfl
  obtain ⟨⟨id, hid, hnames⟩, -⟩ := userId_grammar hmixed
  obtain ⟨-, -, hstray, -⟩ := userId_grammar hgrouped
  rw [hread] at hid
  exact ⟨hmixed, (hnames 37).mp (Except.ok.inj hid).symm, hread, hgrouped, hten,
    hstray (.inl (by decide))⟩

end Bracket

end TaskBulletin
