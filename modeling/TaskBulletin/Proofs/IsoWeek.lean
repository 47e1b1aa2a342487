import TaskBulletin.Calendar.Date
import Mathlib.Algebra.GroupWithZero.Nat
import Mathlib.Data.List.GetD
import Mathlib.Tactic.SplitIfs

/-!
# Dates by their ISO week

A week belongs to the year of its Thursday and is counted by the Thursdays of that year. So the
week date of a day is read off the Thursday of the same week, which may lie in the year before or
after. Counted in days from the first of January of the year that the week belongs to, a day is
found again from its week and its weekday, and a day that is counted from another year's first of
January is the day that the calendar names.
-/

namespace TaskBulletin.Date

/-! ## Days of a year -/

def dayOfYear (d : Date) : Nat := ((monthLengths d.year).take (d.month - 1)).sum + (d.day - 1)

/-- The days before a day since the first of January of the year one, a Monday. -/
def daysBefore (d : Date) : Nat := daysBeforeYear d.year + d.dayOfYear

/-- The day of the week, Monday being zero. -/
def weekday (d : Date) : Nat := d.daysBefore % 7

theorem daysInYear_cases (y : Nat) :
    (isLeapYear y = true ∧ daysInYear y = 366) ∨ (isLeapYear y = false ∧ daysInYear y = 365) := by
  unfold daysInYear
  cases isLeapYear y <;> simp

theorem isLeapYear_iff (y : Nat) :
    isLeapYear y = true ↔ y % 4 = 0 ∧ (y % 100 ≠ 0 ∨ y % 400 = 0) := by
  simp [isLeapYear]

theorem sum_monthLengths (y : Nat) : (monthLengths y).sum = daysInYear y := by
  unfold monthLengths daysInYear
  cases isLeapYear y <;> rfl

theorem div_succ (n k : Nat) : (n + 1) / k = n / k + if (n + 1) % k = 0 then 1 else 0 := by
  rw [Nat.succ_div]
  simp only [Nat.dvd_iff_mod_eq_zero]

/-- The days before the next year are those before this one and its own. -/
theorem daysBeforeYear_succ {y : Nat} (hy : 1 ≤ y) :
    daysBeforeYear (y + 1) = daysBeforeYear y + daysInYear y := by
  obtain ⟨past, rfl⟩ : ∃ past, y = past + 1 := ⟨y - 1, by omega⟩
  have hle : past / 100 ≤ past / 4 := by omega
  have h4 : (past + 1) % 100 = 0 → (past + 1) % 4 = 0 := by omega
  have h100 : (past + 1) % 400 = 0 → (past + 1) % 100 = 0 := by omega
  unfold daysBeforeYear daysInYear
  simp only [Nat.add_sub_cancel, div_succ past 4, div_succ past 100, div_succ past 400,
    isLeapYear_iff]
  generalize past / 4 = q4, past / 100 = q100, past / 400 = q400 at hle ⊢
  split_ifs <;> omega

theorem newYearWeekday_succ {y : Nat} (hy : 1 ≤ y) :
    newYearWeekday (y + 1) = (newYearWeekday y + daysInYear y) % 7 := by
  unfold newYearWeekday
  rw [daysBeforeYear_succ hy]
  omega

theorem monthAndDay_of_take {lengths : List Nat} {k n : Nat} (m : Nat)
    (hn : n < lengths.getD k 0) :
    monthAndDay m lengths ((lengths.take k).sum + n) = (m + k, n + 1) := by
  induction k generalizing m lengths with
  | zero =>
    cases lengths with
    | nil => simp at hn
    | cons length lengths =>
      have hlt : 0 + n < length := by simpa using hn
      rw [List.take_zero, List.sum_nil, monthAndDay, if_pos hlt]
      simp
  | succ k ih =>
    cases lengths with
    | nil => simp at hn
    | cons length lengths =>
      have hrest := ih (m + 1) (by simpa using hn)
      have hlt : ¬ (length + (lengths.take k).sum + n < length) := by omega
      rw [List.take_succ_cons, List.sum_cons, monthAndDay, if_neg hlt]
      have hsub : length + (lengths.take k).sum + n - length = (lengths.take k).sum + n := by omega
      rw [hsub, hrest, Nat.add_right_comm, Nat.add_assoc]

theorem valid_iff (d : Date) : d.valid = true ↔
    (1 ≤ d.year ∧ d.year ≤ 9999) ∧ 1 ≤ d.month ∧ d.month ≤ 12 ∧ 1 ≤ d.day ∧
      d.day ≤ (monthLengths d.year).getD (d.month - 1) 0 := by
  have hlength : (monthLengths d.year).length = 12 := rfl
  unfold valid validYear daysInMonth
  simp only [Bool.and_eq_true, decide_eq_true_eq]
  by_cases hm : d.month = 0
  · simp only [hm, if_true]
    omega
  · rw [if_neg hm]
    by_cases hle : d.month ≤ 12
    · omega
    · have hzero : (monthLengths d.year).getD (d.month - 1) 0 = 0 := by
        exact List.getD_eq_default _ _ (by omega)
      omega

theorem ofDayOfYear_dayOfYear {d : Date} (h : d.valid = true) :
    ofDayOfYear d.year d.dayOfYear = d := by
  obtain ⟨-, hm, -, hday, hle⟩ := (valid_iff d).mp h
  have hlt : d.day - 1 < (monthLengths d.year).getD (d.month - 1) 0 := by omega
  have hmonth : 1 + (d.month - 1) = d.month := by omega
  have hd : d.day - 1 + 1 = d.day := by omega
  unfold ofDayOfYear dayOfYear
  rw [monthAndDay_of_take 1 hlt, hmonth, hd]

theorem sum_take_add_getD_le (lengths : List Nat) (k : Nat) :
    (lengths.take k).sum + lengths.getD k 0 ≤ lengths.sum := by
  induction lengths generalizing k with
  | nil => simp
  | cons length lengths ih =>
    cases k with
    | zero => simp
    | succ k =>
      have := ih k
      simp only [List.take_succ_cons, List.sum_cons, List.getD_cons_succ]
      omega

theorem dayOfYear_lt {d : Date} (h : d.valid = true) : d.dayOfYear < daysInYear d.year := by
  obtain ⟨-, -, -, hday, hle⟩ := (valid_iff d).mp h
  have hsum := sum_take_add_getD_le (monthLengths d.year) (d.month - 1)
  rw [sum_monthLengths] at hsum
  unfold dayOfYear
  omega

/-! ## Weeks -/

/-- A day by the year that its week belongs to, the number of the week and the day in it, Monday
being one. -/
structure WeekDate where
  year : Nat
  week : Nat
  day : Nat
  deriving Repr, DecidableEq

/-- The week date of a day. The week belongs to the year of its Thursday, and its number counts the
Thursdays of that year. -/
def toWeekDate (d : Date) : WeekDate :=
  let thursday : Int := d.dayOfYear + 3 - d.weekday
  if thursday < 0 then
    ⟨d.year - 1, (thursday + daysInYear (d.year - 1)).toNat / 7 + 1, d.weekday + 1⟩
  else if thursday < daysInYear d.year then ⟨d.year, thursday.toNat / 7 + 1, d.weekday + 1⟩
  else ⟨d.year + 1, (thursday - daysInYear d.year).toNat / 7 + 1, d.weekday + 1⟩

/-- A day that is `offset` days after the first of January of a year, perhaps in another year, is
named by the week of its Thursday if that lies in the year. -/
theorem ofWeek?_of_thursday {y thursday weekday : Nat} (offset : Int) (hy : validYear y = true)
    (hweekday : (weekday : Int) = (newYearWeekday y + offset) % 7)
    (hthursday : (thursday : Int) = offset + 3 - weekday) (hlt : thursday < daysInYear y) :
    ofWeek? y (thursday / 7 + 1) (weekday + 1) = some (ofOffset y offset) := by
  have hnew : newYearWeekday y < 7 := Nat.mod_lt _ (by decide)
  have hweek : validWeek y (thursday / 7 + 1) = true := by
    unfold validWeek hasLongCalendar
    simp only [Bool.and_eq_true, Bool.or_eq_true, decide_eq_true_eq, beq_iff_eq]
    rcases daysInYear_cases y with ⟨hleap, hdays⟩ | ⟨-, hdays⟩
    · simp only [hleap, and_true]
      omega
    · omega
  have hoffset :
      firstMonday y + (7 * (thursday / 7 + 1 - 1) + (weekday + 1 - 1) : Nat) = offset := by
    unfold firstMonday
    dsimp only
    split_ifs <;> omega
  unfold ofWeek?
  rw [hoffset, if_pos]
  simp only [hy, hweek, Bool.true_and, Bool.and_eq_true, decide_eq_true_eq]
  omega

theorem ofOffset_dayOfYear {d : Date} (h : d.valid = true) : ofOffset d.year d.dayOfYear = d := by
  have hlt := dayOfYear_lt h
  unfold ofOffset
  rw [if_neg (by omega), if_pos (by omega), Int.toNat_natCast]
  exact ofDayOfYear_dayOfYear h

theorem ofOffset_pred {d : Date} (h : d.valid = true) :
    ofOffset (d.year - 1) (d.dayOfYear + daysInYear (d.year - 1)) = d := by
  obtain ⟨⟨hyear, -⟩, -⟩ := (valid_iff d).mp h
  have hsub : (d.dayOfYear + daysInYear (d.year - 1) - daysInYear (d.year - 1) : Int).toNat =
      d.dayOfYear := by omega
  unfold ofOffset
  rw [if_neg (by omega), if_neg (by omega), hsub, Nat.sub_add_cancel hyear]
  exact ofDayOfYear_dayOfYear h

theorem ofOffset_succ {d : Date} (h : d.valid = true) :
    ofOffset (d.year + 1) (d.dayOfYear - daysInYear d.year) = d := by
  have hlt := dayOfYear_lt h
  have hadd : (d.dayOfYear - daysInYear d.year + daysInYear d.year : Int).toNat = d.dayOfYear := by
    omega
  unfold ofOffset
  rw [if_pos (by omega), Nat.add_sub_cancel, hadd]
  exact ofDayOfYear_dayOfYear h

/-- Every date is found again from its week date. -/
theorem ofWeek?_toWeekDate {d : Date} (h : d.valid = true) :
    ofWeek? d.toWeekDate.year d.toWeekDate.week d.toWeekDate.day = some d := by
  obtain ⟨⟨hone, hlast⟩, -⟩ := (valid_iff d).mp h
  have hlt := dayOfYear_lt h
  have hweekday : d.weekday = (newYearWeekday d.year + d.dayOfYear) % 7 := by
    unfold weekday daysBefore newYearWeekday
    omega
  unfold toWeekDate
  dsimp only
  split_ifs with hbefore hin
  · -- The Thursday lies in the year before. The first of all years, begun on a Monday, has none.
    have hyear : d.year ≠ 1 := by
      intro hyear
      have hfirst : newYearWeekday d.year = 0 := by
        rw [hyear]
        rfl
      omega
    have hnew := newYearWeekday_succ (y := d.year - 1) (by omega)
    rw [Nat.sub_add_cancel hone] at hnew
    have hvalid : validYear (d.year - 1) = true := by simp [validYear]; omega
    have hdays := daysInYear_cases (d.year - 1)
    rw [ofWeek?_of_thursday (d.dayOfYear + daysInYear (d.year - 1)) hvalid (by omega)
      (by omega) (by omega), ofOffset_pred h]
  · have hvalid : validYear d.year = true := by simp [validYear]; omega
    rw [ofWeek?_of_thursday d.dayOfYear hvalid (by omega) (by omega) (by omega),
      ofOffset_dayOfYear h]
  · -- The Thursday lies in the year after. The last of all years, ended on a Friday, has none.
    have hyear : d.year ≠ 9999 := by
      intro hyear
      have hfirst : newYearWeekday d.year = 4 := by
        rw [hyear]
        rfl
      have hlength : daysInYear d.year = 365 := by
        rw [hyear]
        rfl
      omega
    have hnew := newYearWeekday_succ hone
    have hvalid : validYear (d.year + 1) = true := by simp [validYear]; omega
    have hdays := daysInYear_cases (d.year + 1)
    rw [ofWeek?_of_thursday (d.dayOfYear - daysInYear d.year) hvalid (by omega) (by omega)
      (by omega), ofOffset_succ h]

/-- The first day of a year may belong to the last week of the year before. -/
example : toWeekDate ⟨2021, 1, 1⟩ = ⟨2020, 53, 5⟩ ∧ ofWeek? 2020 53 5 = some ⟨2021, 1, 1⟩ := by
  decide

theorem toWeekDate_bounds {d : Date} (h : d.valid = true) :
    d.toWeekDate.year ≤ 9999 ∧ d.toWeekDate.week ≤ 53 ∧ d.toWeekDate.day ≤ 7 := by
  have hfound := ofWeek?_toWeekDate h
  unfold ofWeek? validYear validWeek at hfound
  simp only [Option.ite_none_right_eq_some, Bool.and_eq_true, Bool.or_eq_true, decide_eq_true_eq,
    beq_iff_eq] at hfound
  omega

theorem valid_bounds {d : Date} (h : d.valid = true) :
    d.year ≤ 9999 ∧ d.month ≤ 12 ∧ d.day ≤ 31 := by
  obtain ⟨⟨-, hyear⟩, -, hmonth, -, hday⟩ := (valid_iff d).mp h
  have hlengths : ∀ length ∈ monthLengths d.year, length ≤ 31 := by
    unfold monthLengths
    cases isLeapYear d.year <;> decide
  have hlt : d.month - 1 < (monthLengths d.year).length := by
    change d.month - 1 < 12
    omega
  rw [List.getD_eq_getElem _ _ hlt] at hday
  exact ⟨hyear, hmonth, Nat.le_trans hday (hlengths _ (List.getElem_mem hlt))⟩

end TaskBulletin.Date
