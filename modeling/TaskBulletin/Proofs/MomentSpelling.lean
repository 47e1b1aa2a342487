import TaskBulletin.Proofs.IsoWeek
import TaskBulletin.Proofs.Trimming
import TaskBulletin.Task.Label
import Mathlib.Data.List.GetD
import Mathlib.Data.List.TakeWhile

/-!
# Spellings of a moment

A deadline may be spelled by its month or by its week, with hyphens in the date and colons in
the time or without them, with a second, a fraction of it or neither, and with an offset at the
end. The length of the date is told from its first characters alone, since no digit is taken for
a hyphen or the letter of a week, and the time ends at the first character that begins an offset,
since no character of a time does. So each part is read by itself: the date gives the same day
however it is spelled, and the offset, checked to be less than a day, is dropped.
-/

namespace TaskBulletin

/-! ## Numbers of a fixed width -/

namespace Text

def lastDigit (n : Nat) : Char := Nat.digitChar (n % 10)

/-- The last digits of a number, as many as asked for, with zeros in front. -/
def padded : (width : Nat) → Nat → Text
  | 0, _ => []
  | width + 1, n => padded width (n / 10) ++ [lastDigit n]

theorem isDigit_lastDigit (n : Nat) : (lastDigit n).isDigit = true := by
  unfold lastDigit
  rw [Nat.isDigit_digitChar, decide_eq_true_eq]
  omega

theorem digitValue?_lastDigit (n : Nat) : digitValue? (lastDigit n) = some (n % 10) := by
  have hdigits : ∀ k < 10, digitValue? (Nat.digitChar k) = some k := by decide
  exact hdigits (n % 10) (Nat.mod_lt n (by decide))

/-- A character that is no digit is not the last digit of a number. -/
theorem lastDigit_ne {c : Char} (hc : c.isDigit = false) (n : Nat) : lastDigit n ≠ c := by
  rintro rfl
  rw [isDigit_lastDigit] at hc
  cases hc

@[simp] theorem length_padded (width n : Nat) : (padded width n).length = width := by
  induction width generalizing n with
  | zero => rfl
  | succ width ih => simp [padded, ih]

theorem isDigit_of_mem_padded {width n : Nat} {c : Char} (h : c ∈ padded width n) :
    c.isDigit = true := by
  induction width generalizing n with
  | zero => cases h
  | succ width ih =>
    rcases List.mem_append.mp h with h | h
    · exact ih h
    · rw [List.mem_singleton.mp h]
      exact isDigit_lastDigit n

theorem value_padded {width n : Nat} (h : n < Nat.pow 10 width) :
    Numeral.value ((padded width n).filterMap digitValue?) = n := by
  induction width generalizing n with
  | zero =>
    have hn : n = 0 := Nat.lt_one_iff.mp h
    rw [hn]
    rfl
  | succ width ih =>
    have hdiv : n / 10 < Nat.pow 10 width := Nat.div_lt_of_lt_mul (by rwa [Nat.mul_comm])
    have ih := ih hdiv
    unfold Numeral.value at ih ⊢
    rw [padded, List.filterMap_append, List.foldl_append, ih, List.filterMap_cons_some
      (digitValue?_lastDigit n), List.filterMap_nil, List.foldl_cons, List.foldl_nil]
    omega

end Text

namespace Moment

open Text

theorem readNumber_padded {width n : Nat} (h : n < Nat.pow 10 width) (rest : Text) :
    readNumber width (padded width n ++ rest) = some (n, rest) := by
  have htake : (padded width n ++ rest).take width = padded width n :=
    List.take_left' (length_padded width n)
  have hdrop : (padded width n ++ rest).drop width = rest :=
    List.drop_left' (length_padded width n)
  have hdigits : (padded width n).all Char.isDigit = true := by
    rw [List.all_eq_true]
    exact fun c hc => isDigit_of_mem_padded hc
  unfold readNumber
  rw [htake, hdrop]
  simp only [length_padded, hdigits, decide_true, Bool.and_self, if_true, value_padded h]

theorem readNumber_two {n : Nat} (h : n < 100) (rest : Text) :
    readNumber 2 (padded 2 n ++ rest) = some (n, rest) :=
  readNumber_padded h rest

theorem readNumber_padded_end {width n : Nat} (h : n < Nat.pow 10 width) :
    readNumber width (padded width n) = some (n, []) := by
  have hread := readNumber_padded h []
  rwa [List.append_nil] at hread

/-! ## Spelled dates -/

def hyphen (hyphens : Bool) : Text := if hyphens then ['-'] else []

def dateText (byWeek hyphens : Bool) (d : Date) : Text :=
  if byWeek then
    padded 4 d.toWeekDate.year ++ (hyphen hyphens ++ ('W' :: (padded 2 d.toWeekDate.week ++
      (hyphen hyphens ++ padded 1 d.toWeekDate.day))))
  else
    padded 4 d.year ++ (hyphen hyphens ++ (padded 2 d.month ++ (hyphen hyphens ++ padded 2 d.day)))

theorem readHyphen_hyphen (hyphens : Bool) (t : Text) :
    readHyphen hyphens (hyphen hyphens ++ t) = some t := by
  cases hyphens <;> rfl

theorem ne_cons_of_padded {width : Nat} {c : Char} (hc : c.isDigit = false) (n : Nat)
    (t rest : Text) : padded (width + 1) n ++ t ≠ c :: rest := by
  intro h
  have hmem : c ∈ padded (width + 1) n := by
    cases hp : padded (width + 1) n with
    | nil => simpa [hp] using length_padded (width + 1) n
    | cons d ds =>
      rw [hp] at h
      rw [(List.cons.inj h).1]
      simp
  rw [isDigit_of_mem_padded hmem] at hc
  cases hc

theorem readDate_dateText (byWeek hyphens : Bool) {d : Date} (h : d.valid = true) :
    readDate (dateText byWeek hyphens d) = some d := by
  unfold dateText
  cases byWeek with
  | true =>
    obtain ⟨hyear, hweek, hday⟩ := Date.toWeekDate_bounds h
    have hhead : ((hyphen hyphens ++ 'W' :: (padded 2 d.toWeekDate.week ++
        (hyphen hyphens ++ padded 1 d.toWeekDate.day))).head? == some '-') = hyphens := by
      cases hyphens <;> rfl
    have hlast : readNumber 1 (padded 1 d.toWeekDate.day) = some (d.toWeekDate.day, []) :=
      readNumber_padded_end (show d.toWeekDate.day < 10 by omega)
    rw [if_pos rfl]
    unfold readDate
    rw [readNumber_padded (show d.toWeekDate.year < 10000 by omega)]
    simp only [Option.bind_eq_bind, Option.bind_some, hhead, readHyphen_hyphen]
    rw [readNumber_two (by omega)]
    simp only [Option.bind_some]
    split
    · rename_i hnil
      simp [padded] at hnil
    · simp only [readHyphen_hyphen, Option.bind_some, hlast]
      exact Date.ofWeek?_toWeekDate h
  | false =>
    obtain ⟨hyear, hmonth, hday⟩ := Date.valid_bounds h
    have hhead : ((hyphen hyphens ++ (padded 2 d.month ++
        (hyphen hyphens ++ padded 2 d.day))).head? == some '-') = hyphens := by
      cases hyphens with
      | true => rfl
      | false => simp [hyphen, padded, lastDigit_ne]
    have hlast : readNumber 2 (padded 2 d.day) = some (d.day, []) :=
      readNumber_padded_end (show d.day < 100 by omega)
    rw [if_neg (by simp)]
    unfold readDate
    rw [readNumber_padded (show d.year < 10000 by omega)]
    simp only [Option.bind_eq_bind, Option.bind_some, hhead, readHyphen_hyphen]
    split
    · rename_i hweek
      exact absurd hweek (ne_cons_of_padded (by decide) _ _ _)
    · rw [readNumber_two (by omega)]
      simp only [Option.bind_some, readHyphen_hyphen, hlast]
      rfl

theorem dateLength?_dateText (byWeek hyphens : Bool) (d : Date) {c : Char} (hc : c.isDigit = false)
    (rest : Text) : dateLength? (dateText byWeek hyphens d ++ c :: rest) =
      some (dateText byWeek hyphens d).length := by
  unfold dateText hyphen dateLength?
  cases byWeek <;> cases hyphens <;> simp [padded, lastDigit_ne, hc, isDigit_lastDigit]

/-! ## Spelled times -/

def colon (colons : Bool) : Text := if colons then [':'] else []

/-- How the second is written: not at all, by itself, or with a fraction of it. -/
inductive SecondForm where
  | omitted
  | whole
  | fraction (mark : Char) (digits : Text) (hmark : mark = '.' ∨ mark = ',') (hne : digits ≠ [])
    (hdigits : ∀ c ∈ digits, c.isDigit = true)

namespace SecondForm

def text (form : SecondForm) (colons : Bool) (second : Nat) : Text :=
  match form with
  | omitted => []
  | whole => colon colons ++ padded 2 second
  | fraction mark digits _ _ _ => colon colons ++ (padded 2 second ++ mark :: digits)

def read (form : SecondForm) (second : Nat) : Nat :=
  match form with
  | omitted => 0
  | _ => second

end SecondForm

def clockText (colons : Bool) (form : SecondForm) (c : Clock) : Text :=
  padded 2 c.hour ++ (colon colons ++ (padded 2 c.minute ++ form.text colons c.second))

theorem padded_two_append (n : Nat) (t : Text) :
    padded 2 n ++ t = lastDigit (n / 10) :: lastDigit n :: t := rfl

theorem readFields_cons (colons : Bool) (n : Nat) {v : Nat} (hv : v < 100) (w : Nat) (t : Text) :
    readFields colons (n + 1) (padded 2 v ++ (colon colons ++ (padded 2 w ++ t))) =
      (readFields colons n (padded 2 w ++ t)).map fun r => (v :: r.1, r.2) := by
  rw [readFields, readNumber_two hv]
  simp only [Option.bind_eq_bind, Option.bind_some]
  cases colons with
  | true =>
    simp only [colon, if_true, List.singleton_append, padded_two_append, Bool.and_self,
      beq_self_eq_true]
    cases readFields true n (lastDigit (w / 10) :: lastDigit w :: t) <;> rfl
  | false =>
    have hpoint : lastDigit (w / 10) ≠ '.' := lastDigit_ne (by decide) _
    have hcomma : lastDigit (w / 10) ≠ ',' := lastDigit_ne (by decide) _
    simp only [colon, Bool.false_eq_true, if_false, List.nil_append, padded_two_append,
      Bool.false_and, Bool.or_eq_true, beq_iff_eq, hpoint, hcomma, or_self]
    cases readFields false n (lastDigit (w / 10) :: lastDigit w :: t) <;> rfl

theorem readFields_last (colons : Bool) (n : Nat) {v : Nat} (hv : v < 100) :
    readFields colons (n + 1) (padded 2 v) = some ([v], []) := by
  have hread : readNumber 2 (padded 2 v) = some (v, []) := readNumber_padded_end hv
  rw [readFields, hread]
  rfl

theorem readFraction_of_digits {digits : Text} (h : ∀ c ∈ digits, c.isDigit = true) :
    readFraction digits = some [] := by
  have hfirst : (digits.take 6).all Char.isDigit = true := by
    rw [List.all_eq_true]
    exact fun c hc => h c (List.mem_of_mem_take hc)
  have hrest : (digits.drop 6).dropWhile Char.isDigit = [] := by
    rw [List.dropWhile_eq_nil_iff]
    intro c hc
    exact h c (List.mem_of_mem_drop hc)
  unfold readFraction
  rw [if_pos hfirst, hrest]

theorem readFields_fraction (colons : Bool) (n : Nat) {v : Nat} (hv : v < 100) {mark : Char}
    (hmark : mark = '.' ∨ mark = ',') {digits : Text} (hne : digits ≠ [])
    (h : ∀ c ∈ digits, c.isDigit = true) :
    readFields colons (n + 1) (padded 2 v ++ mark :: digits) = some ([v], []) := by
  rw [readFields, readNumber_two hv]
  simp only [Option.bind_eq_bind, Option.bind_some]
  have hcolon : (colons && mark == ':') = false := by
    rcases hmark with rfl | rfl <;> simp
  have hmarks : (mark == '.' || mark == ',') = true := by
    rcases hmark with rfl | rfl <;> rfl
  cases digits with
  | nil => exact absurd rfl hne
  | cons digit digits =>
    simp only [hcolon, hmarks, Bool.false_eq_true, if_false, if_true, readFraction_of_digits h]
    rfl

/-- A spelled time of day is read, without the fraction of its second. -/
theorem readClock_clockText (colons : Bool) (form : SecondForm) {c : Clock} (hhour : c.hour < 100)
    (hminute : c.minute < 100) (hsecond : c.second < 100) :
    readClock (clockText colons form c) = some (⟨c.hour, c.minute, form.read c.second⟩, []) := by
  have hcolons : ((clockText colons form c)[2]? == some ':') = colons := by
    unfold clockText
    cases colons with
    | true => rfl
    | false => simp [colon, padded_two_append, lastDigit_ne]
  unfold readClock
  rw [hcolons]
  unfold clockText
  rw [readFields_cons colons 2 hhour]
  cases form with
  | omitted =>
    unfold SecondForm.text
    rw [List.append_nil, readFields_last colons 1 hminute]
    rfl
  | whole =>
    unfold SecondForm.text
    have hrest := readFields_cons colons 1 hminute c.second []
    rw [List.append_nil] at hrest
    rw [hrest, readFields_last colons 0 hsecond]
    rfl
  | fraction mark digits hmark hne hdigits =>
    unfold SecondForm.text
    rw [readFields_cons colons 1 hminute, readFields_fraction colons 0 hsecond hmark hne hdigits]
    rfl

def isClockCharacter (c : Char) : Bool := c.isDigit || c == ':' || c == '.' || c == ','

theorem isClockCharacter_of_mem_padded {width n : Nat} {c : Char} (h : c ∈ padded width n) :
    isClockCharacter c = true := by
  unfold isClockCharacter
  rw [isDigit_of_mem_padded h]
  rfl

theorem isClockCharacter_of_mem_colon {colons : Bool} {c : Char} (h : c ∈ colon colons) :
    isClockCharacter c = true := by
  cases colons with
  | true =>
    rw [List.mem_singleton.mp h]
    rfl
  | false => cases h

theorem isClockCharacter_of_mem_second {form : SecondForm} {colons : Bool} {second : Nat} {c : Char}
    (h : c ∈ form.text colons second) : isClockCharacter c = true := by
  cases form with
  | omitted => cases h
  | whole =>
    rcases List.mem_append.mp h with h | h
    · exact isClockCharacter_of_mem_colon h
    · exact isClockCharacter_of_mem_padded h
  | fraction mark digits hmark hne hdigits =>
    rcases List.mem_append.mp h with h | h
    · exact isClockCharacter_of_mem_colon h
    rcases List.mem_append.mp h with h | h
    · exact isClockCharacter_of_mem_padded h
    rcases List.mem_cons.mp h with rfl | h
    · rcases hmark with rfl | rfl <;> rfl
    · simp [isClockCharacter, hdigits c h]

theorem isClockCharacter_of_mem_clockText {colons : Bool} {form : SecondForm} {clock : Clock}
    {c : Char} (h : c ∈ clockText colons form clock) : isClockCharacter c = true := by
  rcases List.mem_append.mp h with h | h
  · exact isClockCharacter_of_mem_padded h
  rcases List.mem_append.mp h with h | h
  · exact isClockCharacter_of_mem_colon h
  rcases List.mem_append.mp h with h | h
  · exact isClockCharacter_of_mem_padded h
  · exact isClockCharacter_of_mem_second h

theorem startsOffset_of_isClockCharacter {c : Char} (h : isClockCharacter c = true) :
    startsOffset c = false := by
  rw [← Bool.not_eq_true]
  intro hstarts
  unfold startsOffset at hstarts
  simp only [Bool.or_eq_true, beq_iff_eq] at hstarts
  rcases hstarts with rfl | rfl <;> simp [isClockCharacter] at h

/-! ## Spelled offsets -/

/-- How the offset from universal time is written: not at all, by the letter for none, or by a sign
and hours and minutes of less than a day. -/
inductive OffsetForm where
  | omitted
  | zulu
  | shift (sign : Char) (colons : Bool) (hours minutes : Nat) (hsign : sign = '+' ∨ sign = '-')
    (hhours : hours < 100) (hminutes : minutes < 100) (hday : 60 * hours + minutes < 24 * 60)

namespace OffsetForm

def text : OffsetForm → Text
  | omitted => []
  | zulu => ['Z']
  | shift sign colons hours minutes _ _ _ _ => sign :: clockText colons .omitted ⟨hours, minutes, 0⟩

/-- The letter for no offset is another spelling of an offset of zero. -/
def spelledOut : OffsetForm → OffsetForm
  | zulu => shift '+' true 0 0 (.inl rfl) (by decide) (by decide) (by decide)
  | form => form

end OffsetForm

theorem validOffset_clockText (colons : Bool) {hours minutes : Nat} (hhours : hours < 100)
    (hminutes : minutes < 100) (hday : 60 * hours + minutes < 24 * 60) :
    validOffset (clockText colons .omitted ⟨hours, minutes, 0⟩) = true := by
  unfold validOffset
  rw [readClock_clockText colons .omitted hhours hminutes (show 0 < 100 by decide)]
  have hseconds : 3600 * hours + 60 * minutes + 0 < 86400 := by omega
  simp only [Bool.and_eq_true, decide_eq_true_eq]
  exact ⟨rfl, hseconds⟩

/-- An offset is not written, or it begins with its sign and is less than a day. -/
theorem OffsetForm.spelledOut_cases (offset : OffsetForm) : offset.spelledOut.text = [] ∨
    ∃ sign size, offset.spelledOut.text = sign :: size ∧ startsOffset sign = true ∧
      validOffset size = true := by
  cases offset with
  | omitted => exact .inl rfl
  | zulu => exact .inr ⟨_, _, rfl, rfl, by decide⟩
  | shift sign colons hours minutes hsign hhours hminutes hday =>
    have hstarts : startsOffset sign = true := by
      rcases hsign with rfl | rfl <;> rfl
    exact .inr ⟨sign, _, rfl, hstarts, validOffset_clockText colons hhours hminutes hday⟩

theorem readTime_append (colons : Bool) (form : SecondForm) {c : Clock} (hhour : c.hour < 100)
    (hminute : c.minute < 100) (hsecond : c.second < 100) (offset : OffsetForm) :
    readTime (clockText colons form c ++ offset.spelledOut.text) =
      some ⟨c.hour, c.minute, form.read c.second⟩ := by
  have hclock : ∀ d ∈ clockText colons form c, (!startsOffset d) = true := by
    intro d hd
    rw [startsOffset_of_isClockCharacter (isClockCharacter_of_mem_clockText hd)]
    rfl
  unfold readTime
  rw [List.takeWhile_append_of_pos hclock, List.dropWhile_append_of_pos hclock]
  have hread := readClock_clockText colons form hhour hminute hsecond
  rcases offset.spelledOut_cases with htext | ⟨sign, size, htext, hsign, hsize⟩
  · rw [htext, List.takeWhile_nil, List.append_nil, hread]
    rfl
  · have hnot : ¬ (!startsOffset sign) = true := by simp [hsign]
    have htake : (sign :: size).takeWhile (fun d => !startsOffset d) = [] :=
      List.takeWhile_cons_of_neg hnot
    have hdrop : (sign :: size).dropWhile (fun d => !startsOffset d) = sign :: size :=
      List.dropWhile_cons_of_neg hnot
    rw [htext, htake, hdrop, List.append_nil, hread]
    simp only [Option.bind_eq_bind, Option.bind_some, hsize, if_true]

/-! ## Spelled moments -/

/-- How a moment is spelled: with blanks around it, by month or by week, with or without hyphens, a
separator, with or without colons, a form for the second and one for the offset. -/
structure Spelling where
  before : Text
  after : Text
  blank_before : ∀ c ∈ before, isBlank c = true
  blank_after : ∀ c ∈ after, isBlank c = true
  byWeek : Bool
  hyphens : Bool
  separator : Char
  separator_cases : separator = 'T' ∨ separator = ' '
  colons : Bool
  second : SecondForm
  offset : OffsetForm

def clock (m : Moment) : Clock := ⟨m.hour, m.minute, m.second⟩

namespace Spelling

/-- A moment without the blanks around it, and with this offset. -/
def core (s : Spelling) (offset : OffsetForm) (m : Moment) : Text :=
  dateText s.byWeek s.hyphens m.date ++
    s.separator :: (clockText s.colons s.second m.clock ++ offset.text)

def text (s : Spelling) (m : Moment) : Text := s.before ++ s.core s.offset m ++ s.after

end Spelling

structure Valid (m : Moment) : Prop where
  date : m.date.valid = true
  hour : m.hour < 24
  minute : m.minute < 60
  second : m.second < 60

theorem length_dateText (byWeek hyphens : Bool) (d : Date) :
    8 ≤ (dateText byWeek hyphens d).length := by
  unfold dateText hyphen
  cases byWeek <;> cases hyphens <;> simp

/-- A spelled moment is read, with zero for a second that is not written. -/
theorem read?_core (s : Spelling) {m : Moment} (h : m.Valid) :
    read? (s.core s.offset.spelledOut m) = some { m with second := s.second.read m.second } := by
  obtain ⟨hdate, hhour, hminute, hsecond⟩ := h
  have hseparator : s.separator.isDigit = false := by
    rcases s.separator_cases with hc | hc <;> rw [hc] <;> rfl
  have hlength := length_dateText s.byWeek s.hyphens m.date
  have hlong : ¬ (s.core s.offset.spelledOut m).length < 7 := by
    unfold Spelling.core
    rw [List.length_append]
    omega
  have hread := readTime_append s.colons s.second (c := m.clock) (show m.hour < 100 by omega)
    (show m.minute < 100 by omega) (show m.second < 100 by omega) s.offset
  have hsecond' : s.second.read m.second < 60 := by
    unfold SecondForm.read
    split
    · decide
    · exact hsecond
  unfold read?
  rw [if_neg hlong]
  unfold Spelling.core
  rw [dateLength?_dateText s.byWeek s.hyphens m.date hseparator]
  simp only [Option.bind_eq_bind, Option.bind_some, List.take_left, List.drop_left,
    readDate_dateText s.byWeek s.hyphens hdate, hread]
  unfold of? Clock.valid
  simp only [clock, hdate, hhour, hminute, hsecond', decide_true, Bool.and_self, if_true]

theorem isBlank_of_isClockCharacter {c : Char} (h : isClockCharacter c = true) :
    isBlank c = false := by
  unfold isClockCharacter at h
  simp only [Bool.or_eq_true, beq_iff_eq] at h
  rcases h with ((h | rfl) | rfl) | rfl
  · have hlow : 48 ≤ c.toNat ∧ c.toNat ≤ 57 := by
      unfold Char.isDigit at h
      simp only [Bool.and_eq_true, decide_eq_true_eq, UInt32.le_iff_toNat_le, ge_iff_le] at h
      exact h
    unfold isBlank
    simp only [Bool.or_eq_false_iff, Bool.and_eq_false_iff, decide_eq_false_iff_not,
      beq_eq_false_iff_ne]
    omega
  · rfl
  · rfl
  · rfl

theorem ne_zulu_of_isClockCharacter {c : Char} (h : isClockCharacter c = true) : c ≠ 'Z' := by
  rintro rfl
  cases h

end Moment

namespace Deadline

open Text Moment

theorem spellOutZulu_append (t u : Text) :
    spellOutZulu (t ++ u) = spellOutZulu t ++ spellOutZulu u :=
  List.flatMap_append

theorem spellOutZulu_of_notMem {t : Text} (h : ∀ c ∈ t, c ≠ 'Z') : spellOutZulu t = t := by
  induction t with
  | nil => rfl
  | cons c t ih =>
    unfold spellOutZulu at ih ⊢
    rw [List.flatMap_cons, if_neg (h c (by simp)), ih fun d hd => h d (by simp [hd])]
    rfl

theorem ne_zulu_of_mem_dateText {byWeek hyphens : Bool} {d : Date} {c : Char}
    (h : c ∈ dateText byWeek hyphens d) : c ≠ 'Z' := by
  rintro rfl
  have hdigits {width n : Nat} : 'Z' ∉ padded width n := fun hm => by
    have hdigit := isDigit_of_mem_padded hm
    cases hdigit
  unfold dateText hyphen at h
  cases byWeek <;> cases hyphens <;> simp [hdigits] at h

theorem spellOutZulu_offset (offset : OffsetForm) :
    spellOutZulu offset.text = offset.spelledOut.text := by
  cases offset with
  | omitted => rfl
  | zulu => rfl
  | shift sign colons hours minutes hsign hhours hminutes hday =>
    apply spellOutZulu_of_notMem
    intro c hc
    rcases List.mem_cons.mp hc with rfl | hc
    · rcases hsign with rfl | rfl <;> decide
    · exact ne_zulu_of_isClockCharacter (isClockCharacter_of_mem_clockText hc)

theorem spellOutZulu_core (s : Spelling) (m : Moment) :
    spellOutZulu (s.core s.offset m) = s.core s.offset.spelledOut m := by
  have hseparator : spellOutZulu [s.separator] = [s.separator] := by
    rcases s.separator_cases with hc | hc <;> rw [hc] <;> rfl
  have hdate : spellOutZulu (dateText s.byWeek s.hyphens m.date) =
      dateText s.byWeek s.hyphens m.date := by
    apply spellOutZulu_of_notMem
    exact fun c hc => ne_zulu_of_mem_dateText hc
  have hclock : spellOutZulu (clockText s.colons s.second m.clock) =
      clockText s.colons s.second m.clock := by
    apply spellOutZulu_of_notMem
    exact fun c hc => ne_zulu_of_isClockCharacter (isClockCharacter_of_mem_clockText hc)
  unfold Spelling.core
  rw [← List.singleton_append, spellOutZulu_append, spellOutZulu_append, spellOutZulu_append, hdate,
    hseparator, hclock, spellOutZulu_offset]
  rfl

theorem trim_between {before after t u : Text} {c : Char} (hbefore : ∀ c ∈ before, isBlank c = true)
    (hafter : ∀ c ∈ after, isBlank c = true) (hc : isBlank c = false) (hne : u ≠ [])
    (hu : ∀ c ∈ u, isBlank c = false) : trim (before ++ (c :: t ++ u) ++ after) = c :: t ++ u := by
  have hstart : trimStart (before ++ (c :: t ++ u) ++ after) = c :: t ++ u ++ after := by
    unfold trimStart
    rw [List.append_assoc, List.dropWhile_append_of_pos hbefore]
    exact List.dropWhile_cons_of_neg (by simp [hc])
  rw [trim, hstart, trimEnd_append_of_isBlank hafter, trimEnd_append_of_not_isBlank hne hu]

theorem isBlank_of_mem_offset {offset : OffsetForm} {c : Char} (h : c ∈ offset.text) :
    isBlank c = false := by
  cases offset with
  | omitted => cases h
  | zulu =>
    rw [List.mem_singleton.mp h]
    rfl
  | shift sign colons hours minutes hsign hhours hminutes hday =>
    rcases List.mem_cons.mp h with rfl | h
    · rcases hsign with rfl | rfl <;> rfl
    · exact isBlank_of_isClockCharacter (isClockCharacter_of_mem_clockText h)

/-- A spelled moment begins with a digit and ends with a time or an offset. -/
theorem trim_text (s : Spelling) (m : Moment) : trim (s.text m) = s.core s.offset m := by
  obtain ⟨n, rest, hdate⟩ : ∃ n rest, dateText s.byWeek s.hyphens m.date = lastDigit n :: rest := by
    unfold dateText
    cases s.byWeek <;> exact ⟨_, _, rfl⟩
  have hfirst : isBlank (lastDigit n) = false := by
    apply isBlank_of_isClockCharacter
    simp [isClockCharacter, isDigit_lastDigit]
  have hcore (offset : OffsetForm) : s.core offset m = lastDigit n :: (rest ++ [s.separator]) ++
      (clockText s.colons s.second m.clock ++ offset.text) := by
    unfold Spelling.core
    simp [hdate]
  unfold Spelling.text
  rw [hcore]
  apply trim_between s.blank_before s.blank_after hfirst
  · simp [clockText, padded_two_append]
  · intro c hc
    rcases List.mem_append.mp hc with hc | hc
    · exact isBlank_of_isClockCharacter (isClockCharacter_of_mem_clockText hc)
    · exact isBlank_of_mem_offset hc

theorem readText_text (s : Spelling) {m : Moment} (h : m.Valid) :
    readText (s.text m) = some { m with second := s.second.read m.second } := by
  unfold readText
  rw [trim_text, spellOutZulu_core, read?_core s h]

/-! ## Deadlines as text -/

theorem twoDigits_eq_padded {n : Nat} (h : n < 100) : twoDigits n = padded 2 n := by
  have hall : ∀ n < 100, twoDigits n = padded 2 n := by decide
  exact hall n h

end Deadline

namespace Task

open Text Moment Deadline

/-- However a moment is spelled, the deadline is shown as the moment itself is: the day, the name of
the month, the year and the time to the minute, whatever the offset is. -/
theorem deadlineLabel_spelled {σ : Type} (dir : Directory σ) (s : Spelling) {m : Moment}
    (h : m.Valid) (st : σ) :
    deadlineLabel dir (.text (s.text m)) st = deadlineLabel dir (.moment m) st ∧
      ∃ month, months[m.date.month - 1]? = some month ∧
        deadlineLabel dir (.moment m) st =
          (Text.ofNat m.date.day ++ ' ' :: month.toList ++ ' ' :: Text.ofNat m.date.year ++
            " at ".toList ++ padded 2 m.hour ++ ':' :: padded 2 m.minute, st) := by
  constructor
  · have hread := readText_text s h
    have hcore : s.core s.offset m ≠ [] := by
      unfold Spelling.core
      simp
    cases htext : s.text m with
    | nil =>
      have hblank := trim_text s m
      rw [htext] at hblank
      exact absurd hblank.symm hcore
    | cons c t =>
      rw [htext] at hread
      unfold deadlineLabel
      dsimp only
      rw [hread]
      rfl
  · obtain ⟨hdate, hhour, hminute, -⟩ := h
    obtain ⟨-, hone, htwelve, -⟩ := (Date.valid_iff m.date).mp hdate
    have hlt : m.date.month - 1 < months.length := by
      change m.date.month - 1 < 12
      omega
    have hhour' := twoDigits_eq_padded (show m.hour < 100 by omega)
    have hminute' := twoDigits_eq_padded (show m.minute < 100 by omega)
    refine ⟨months[m.date.month - 1], List.getElem?_eq_getElem hlt, ?_⟩
    unfold deadlineLabel showMoment
    dsimp only
    rw [hhour', hminute', List.getD_eq_getElem _ _ hlt]

/-- A day at the end of a year that belongs to the first week of the next. -/
def lateMoment : Moment := ⟨⟨2024, 12, 30⟩, 23, 5, 9⟩

/-- By week without hyphens, with a fraction of a second and an offset. -/
def weekSpelling : Spelling where
  before := [' ']
  after := ['\n']
  blank_before := by decide
  blank_after := by decide
  byWeek := true
  hyphens := false
  separator := ' '
  separator_cases := .inr rfl
  colons := true
  second := .fraction ',' ['5'] (.inr rfl) (by decide) (by decide)
  offset := .shift '-' false 9 30 (.inr rfl) (by decide) (by decide) (by decide)

def emptyDirectory : Directory Transcript := .recording (fun _ => .ok none) fun _ => .ok none

theorem deadlineLabel_spelled_byWeek :
    lateMoment.Valid ∧ weekSpelling.text lateMoment = " 2025W011 23:05:09,5-0930\n".toList ∧
      deadlineLabel emptyDirectory (.text (weekSpelling.text lateMoment)) ⟨[], [], []⟩ =
        deadlineLabel emptyDirectory (.moment lateMoment) ⟨[], [], []⟩ ∧
      (deadlineLabel emptyDirectory (.moment lateMoment) ⟨[], [], []⟩).1 =
        "30 December 2024 at 23:05".toList := by
  have hvalid : lateMoment.Valid := ⟨by decide, by decide, by decide, by decide⟩
  have hsame := (deadlineLabel_spelled emptyDirectory weekSpelling hvalid ⟨[], [], []⟩).1
  exact ⟨hvalid, by decide, hsame, by decide⟩

end Task

end TaskBulletin
