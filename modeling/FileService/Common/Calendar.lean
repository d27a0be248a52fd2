import Mathlib.Tactic

/-!
# The civil calendar

Days are counted from the first of January 1970, forwards and backwards, with
the leap years of the Gregorian rule. Counted in years that begin in March, a
leap day is the last day of its year, and the year of a day is found by a division.
-/
namespace FileService.Common.Calendar

/-- Every fourth year is a leap year, but of the hundredth ones only every fourth is. -/
def IsLeap (y : Int) : Prop := y % 4 = 0 ∧ y % 100 ≠ 0 ∨ y % 400 = 0

instance (y : Int) : Decidable (IsLeap y) := inferInstanceAs (Decidable (_ ∨ _))

def daysInMonth (y m : Int) : Int :=
  if m = 2 then if IsLeap y then 29 else 28
  else if m = 4 ∨ m = 6 ∨ m = 9 ∨ m = 11 then 30
  else 31

structure Valid (y m d : Int) : Prop where
  month : 1 ≤ m ∧ m ≤ 12
  day : 1 ≤ d ∧ d ≤ daysInMonth y m

/-- The leap years up to the year before, from a year 1 on. -/
def leapsBefore (y : Int) : Int := (y - 1) / 4 - (y - 1) / 100 + (y - 1) / 400

/-- The days of the year in front of the month. -/
def daysBefore (y m : Int) : Int :=
  if m ≤ 2 then 31 * (m - 1)
  else (153 * (m - 3) + 2) / 5 + (if IsLeap y then 60 else 59)

/-- The day, counted from 1970-01-01. -/
def dayNumber (y m d : Int) : Int :=
  365 * (y - 1970) + (leapsBefore y - leapsBefore 1970) + daysBefore y m + (d - 1)

/-- The day behind a day. -/
def next (y m d : Int) : Int × Int × Int :=
  if d < daysInMonth y m then (y, m, d + 1)
  else if m < 12 then (y, m + 1, 1)
  else (y + 1, 1, 1)

section Days
variable {y m d : Int}

theorem leapsBefore_succ : leapsBefore (y + 1) = leapsBefore y + (if IsLeap y then 1 else 0) := by
  unfold leapsBefore IsLeap
  split_ifs <;> omega

theorem leapsBefore_mono {a b : Int} (h : a ≤ b) : leapsBefore a ≤ leapsBefore b := by
  have hcentury : (a - 1) / 100 = (a - 1) / 4 / 25 ∧ (b - 1) / 100 = (b - 1) / 4 / 25 := by omega
  have hfour : (a - 1) / 4 ≤ (b - 1) / 4 := by omega
  have hcycle : (a - 1) / 400 ≤ (b - 1) / 400 := by omega
  unfold leapsBefore
  omega

theorem daysBefore_succ (hm : 1 ≤ m ∧ m < 12) :
    daysBefore y (m + 1) = daysBefore y m + daysInMonth y m := by
  obtain ⟨hlow, hhigh⟩ := hm
  unfold daysBefore daysInMonth
  by_cases hleap : IsLeap y
  · simp only [if_pos hleap]
    interval_cases m <;> rfl
  · simp only [if_neg hleap]
    interval_cases m <;> rfl

theorem daysBefore_last : daysBefore y 12 + daysInMonth y 12 = 365 + (if IsLeap y then 1 else 0) := by
  unfold daysBefore daysInMonth
  split_ifs <;> simp_all

/-- A day lies in its year. -/
theorem dayOfYear_lt (h : Valid y m d) : 0 ≤ daysBefore y m + (d - 1) ∧
    daysBefore y m + (d - 1) < 365 + (if IsLeap y then 1 else 0) := by
  obtain ⟨⟨hlow, hhigh⟩, hday, hdays⟩ := h
  unfold daysBefore
  unfold daysInMonth at hdays
  by_cases hleap : IsLeap y
  · simp only [if_pos hleap] at hdays ⊢
    interval_cases m <;> simp at hdays ⊢ <;> omega
  · simp only [if_neg hleap] at hdays ⊢
    interval_cases m <;> simp at hdays ⊢ <;> omega

theorem dayNumber_epoch : dayNumber 1970 1 1 = 0 := by decide

/-- One day later the count is one more. -/
theorem dayNumber_next (h : Valid y m d) :
    dayNumber (next y m d).1 (next y m d).2.1 (next y m d).2.2 = dayNumber y m d + 1 := by
  obtain ⟨⟨hlow, hhigh⟩, -, hday⟩ := h
  unfold next
  split_ifs with hd hm
  · unfold dayNumber
    dsimp only
    omega
  · have hmonth := daysBefore_succ (y := y) ⟨hlow, hm⟩
    unfold dayNumber
    dsimp only
    omega
  · obtain rfl : m = 12 := by omega
    have hyear := leapsBefore_succ (y := y)
    have hlast := daysBefore_last (y := y)
    have hfirst : daysBefore (y + 1) 1 = 0 := rfl
    unfold dayNumber
    dsimp only
    omega

end Days

/-! ## Years from March on -/

/-- The first day of a year that begins in March, counted in a cycle of 400 years. -/
def marchDay (y : Int) : Int := 365 * y + y / 4 - y / 100 + y / 400

/-- The days of the cycle without the leap days, and so the year. -/
def plainDays (doe : Int) : Int := doe - doe / 1460 + doe / 36524 - doe / 146096

section March
variable {y m d doe : Int}

theorem plainDays_mono {a b : Int} (h : a ≤ b) : plainDays a ≤ plainDays b := by
  have hquarter : a / 146096 = a / 36524 / 4 ∧ b / 146096 = b / 36524 / 4 := by omega
  have hcentury : a / 36524 ≤ b / 36524 := by omega
  have hfour : a - a / 1460 ≤ b - b / 1460 := by omega
  unfold plainDays
  omega

theorem plainDays_table : ∀ y : Fin 400, 365 * (y.val : Int) ≤ plainDays (marchDay y.val) ∧
    plainDays (marchDay (y.val + 1) - 1) < 365 * ((y.val : Int) + 1) := by
  decide +kernel

theorem plainDays_marchDay (h : 0 ≤ y ∧ y < 400) :
    365 * y ≤ plainDays (marchDay y) ∧ plainDays (marchDay (y + 1) - 1) < 365 * (y + 1) := by
  have htable := plainDays_table ⟨y.toNat, by omega⟩
  rwa [Int.toNat_of_nonneg h.1] at htable

/-- The division by the days of a plain year finds the year of a day. -/
theorem plainDays_div (h : 0 ≤ doe ∧ doe < 146097) :
    0 ≤ plainDays doe / 365 ∧ plainDays doe / 365 < 400 ∧
      marchDay (plainDays doe / 365) ≤ doe ∧ doe < marchDay (plainDays doe / 365 + 1) := by
  have hzero : plainDays 0 = 0 := by decide
  have hend : plainDays 146096 = 145999 := by decide
  have hlow := plainDays_mono h.1
  have hhigh : plainDays doe ≤ plainDays 146096 := plainDays_mono (by omega)
  have hyear : 0 ≤ plainDays doe / 365 ∧ plainDays doe / 365 < 400 := by omega
  refine ⟨hyear.1, hyear.2, ?_, ?_⟩
  · by_contra hlt
    rcases hyear.1.eq_or_lt with hfirst | hpos
    · rw [← hfirst] at hlt
      exact hlt h.1
    · have hbefore := (plainDays_marchDay (y := plainDays doe / 365 - 1) (by omega)).2
      rw [Int.sub_add_cancel] at hbefore
      have hle : plainDays doe ≤ plainDays (marchDay (plainDays doe / 365) - 1) :=
        plainDays_mono (by omega)
      omega
  · by_contra hge
    have hbound : plainDays doe / 365 + 1 < 400 := by
      by_contra hlast
      have heq : plainDays doe / 365 + 1 = 400 := by omega
      rw [heq] at hge
      exact hge h.2
    have hafter := (plainDays_marchDay (y := plainDays doe / 365 + 1) (by omega)).1
    have hle : plainDays (marchDay (plainDays doe / 365 + 1)) ≤ plainDays doe :=
      plainDays_mono (by omega)
    omega

/-- A date in a year that begins in March, and in a cycle of 400 such years. -/
theorem dayNumber_march (hm : 1 ≤ m ∧ m ≤ 12) : dayNumber y m d =
    146097 * ((if m ≤ 2 then y - 1 else y) / 400) + marchDay ((if m ≤ 2 then y - 1 else y) % 400) +
      (153 * (if m ≤ 2 then m + 9 else m - 3) + 2) / 5 + (d - 1) - 719468 := by
  have hyear := leapsBefore_succ (y := y)
  have hepoch : leapsBefore 1970 = 477 := by decide
  unfold dayNumber daysBefore marchDay
  rw [hepoch]
  unfold leapsBefore at hyear ⊢
  split_ifs with hfirst
  · have hmonth : m = 1 ∨ m = 2 := by omega
    rcases hmonth with rfl | rfl <;> omega
  all_goals
    split_ifs at hyear
    omega

/-- The month of a day of such a year, and the day of the month. -/
theorem month_of_day {doy : Int} (h : 0 ≤ doy ∧ doy ≤ 365) (hleap : doy = 365 → IsLeap (y + 1))
    (hm : m = if (5 * doy + 2) / 153 < 10 then (5 * doy + 2) / 153 + 3 else (5 * doy + 2) / 153 - 9) :
    Valid (y + if m ≤ 2 then 1 else 0) m (doy - (153 * ((5 * doy + 2) / 153) + 2) / 5 + 1) := by
  obtain ⟨mp, hmp⟩ : ∃ mp, mp = (5 * doy + 2) / 153 := ⟨_, rfl⟩
  have hrange : 0 ≤ mp ∧ mp ≤ 11 := by omega
  obtain ⟨hlow, hhigh⟩ := hrange
  rw [← hmp] at hm ⊢
  interval_cases mp
  all_goals
    simp only [Int.reduceLT, if_true, if_false, Int.reduceAdd, Int.reduceSub] at hm
    subst hm
    refine ⟨by decide, by omega, ?_⟩
    simp only [daysInMonth]
    simp
    try omega
  split_ifs with hlast
  · omega
  · have hne : doy ≠ 365 := fun heq => hlast (hleap heq)
    omega

theorem marchDay_succ_le (h : 0 ≤ y ∧ y < 400) : marchDay (y + 1) - marchDay y ≤ 366 := by
  have hfour : (y + 1) / 4 ≤ y / 4 + 1 := by omega
  have hcentury : y / 100 ≤ (y + 1) / 100 - (y + 1) / 400 := by
    rcases eq_or_ne y 399 with rfl | hne
    · decide
    · omega
  have hcycle : 0 ≤ y / 400 := by omega
  unfold marchDay
  omega

/-- Only the years before a leap year have 366 days from March on. -/
theorem isLeap_of_march (h : 0 ≤ y ∧ y < 400) (hlong : 365 < marchDay (y + 1) - marchDay y) :
    IsLeap (y + 1) := by
  unfold marchDay at hlong
  unfold IsLeap
  omega

end March

end FileService.Common.Calendar
