import FileService.Common.Calendar
import FileService.Time.Scanf

/-!
# Reading timestamps

A timestamp is scanned field by field, the length of what was scanned is
compared, the fields are checked against the calendar, and what follows is taken
for a fraction and an offset from UTC.
-/
namespace FileService.Time
open FileService.Common FileService.Domain
open FileService.Transfer (isDigitOctet decimalValue)

/-- What is scanned, as it goes into `std::tm`. -/
structure Fields where
  year : Int
  month : Int
  day : Int
  hour : Int
  minute : Int
  second : Int
deriving DecidableEq

/-- The format `%4d-%2d-%2dT%2d:%2d:%2d`. -/
def scanStamp (text : Bytes) : Option (Fields × Bytes) := do
  let (year, text) ← scanInt 4 text
  let text ← scanLiteral 45 text
  let (month, text) ← scanInt 2 text
  let text ← scanLiteral 45 text
  let (day, text) ← scanInt 2 text
  let text ← scanLiteral 84 text
  let (hour, text) ← scanInt 2 text
  let text ← scanLiteral 58 text
  let (minute, text) ← scanInt 2 text
  let text ← scanLiteral 58 text
  let (second, text) ← scanInt 2 text
  return ({ year, month, day, hour, minute, second }, text)

def daysInMonth (year month : Int) : Int :=
  if month < 1 ∨ 12 < month then 0
  else if month = 2 then
    if year.tmod 4 = 0 ∧ year.tmod 100 ≠ 0 ∨ year.tmod 400 = 0 then 29 else 28
  else [31, 28, 31, 30, 31, 30, 31, 31, 30, 31, 30, 31].getD (month - 1).toNat 0

def Fields.outOfRange (f : Fields) : Prop :=
  f.month < 1 ∨ 12 < f.month ∨ f.day < 1 ∨ daysInMonth f.year f.month < f.day ∨
    f.hour < 0 ∨ 23 < f.hour ∨ f.minute < 0 ∨ 59 < f.minute ∨ f.second < 0 ∨ 59 < f.second

instance (f : Fields) : Decidable f.outOfRange := inferInstanceAs (Decidable (_ ∨ _))

/-- `timegm`: the epoch second of a date and a time in UTC. -/
def timegm (f : Fields) : Int :=
  86400 * Calendar.dayNumber f.year f.month f.day + (3600 * f.hour + 60 * f.minute + f.second)

/-- The hours and minutes behind the sign of an offset. -/
def scanOffset (rest : Bytes) : Option (Int × Int) :=
  if rest.length = 5 ∧ rest[2]? = some 58 then do
    let (hours, text) ← scanInt 2 (cString rest)
    let text ← scanLiteral 58 text
    let (minutes, _) ← scanInt 2 text
    return (hours, minutes)
  else if 4 ≤ rest.length then do
    let (hours, text) ← scanInt 2 (cString rest)
    let (minutes, _) ← scanInt 2 text
    return (hours, minutes)
  else none

/-- The offset in minutes at the end of a timestamp. -/
def parseOffset : Bytes → Result Int
  | [] => .ok 0
  | c :: rest =>
    if c = 90 then .ok 0
    else if c = 43 ∨ c = 45 then
      match scanOffset rest with
      | none => .error (err .invalidArgument "时区偏移格式错误")
      | some (hours, minutes) =>
        if 23 < hours ∨ 59 < minutes then .error (err .invalidArgument "时区偏移越界")
        else .ok (if c = 45 then -(hours * 60 + minutes) else hours * 60 + minutes)
    else .error (err .invalidArgument "无法识别的时区标记")

/-- What follows the fraction, if there is one. -/
def afterFraction (tail : Bytes) : Bytes :=
  if tail.head? = some 46 then tail.tail.dropWhile isDigitOctet else tail

def parseCommon (text : Bytes) : Result Int :=
  if text.length < 19 then .error (err .invalidArgument "时间字符串过短")
  else
    match scanStamp (cString text) with
    | none => .error (err .invalidArgument "时间格式不符合 ISO-8601")
    | some (f, rest) =>
      if (cString text).length - rest.length ≠ 19 then
        .error (err .invalidArgument "时间格式不符合 ISO-8601（要求 yyyy-MM-ddTHH:mm:ss）")
      else if f.outOfRange then .error (err .invalidArgument "时间字段越界")
      else
        match parseOffset (afterFraction (text.drop 19)) with
        | .error e => .error e
        | .ok minutes =>
          if timegm f = -1 ∧ ¬(f.year = 1969 ∧ f.month = 12) then
            .error (err .invalidArgument "时间字段越界")
          else .ok (timegm f - minutes * 60)

def parseIso8601 (text : Bytes) : Result Int := parseCommon text

def parseOsduTimestamp (text : Bytes) : Result Int := parseCommon text

/-! ## Calendar ranges -/

section Ranges
variable {f : Fields} {y m d : Int}

/-- The fields are a date of the calendar and a time of the day. -/
structure InCalendar (f : Fields) : Prop where
  date : Calendar.Valid f.year f.month f.day
  hour : 0 ≤ f.hour ∧ f.hour ≤ 23
  minute : 0 ≤ f.minute ∧ f.minute ≤ 59
  second : 0 ≤ f.second ∧ f.second ≤ 59

theorem daysInMonth_eq (hm : 1 ≤ m ∧ m ≤ 12) : daysInMonth y m = Calendar.daysInMonth y m := by
  have hleap : (y.tmod 4 = 0 ∧ y.tmod 100 ≠ 0 ∨ y.tmod 400 = 0) ↔ Calendar.IsLeap y := by
    unfold Calendar.IsLeap
    simp only [ne_eq, ← Int.dvd_iff_tmod_eq_zero, ← Int.dvd_iff_emod_eq_zero]
  obtain ⟨hlow, hhigh⟩ := hm
  unfold daysInMonth Calendar.daysInMonth
  simp only [hleap]
  interval_cases m <;> rfl

theorem not_outOfRange : ¬f.outOfRange ↔ InCalendar f := by
  have hdays := daysInMonth_eq (y := f.year) (m := f.month)
  constructor
  · intro h
    simp only [Fields.outOfRange, not_or, not_lt] at h
    obtain ⟨hm, hm', hd, hd', hh, hh', hmin, hmin', hs, hs'⟩ := h
    exact ⟨⟨⟨hm, hm'⟩, hd, hdays ⟨hm, hm'⟩ ▸ hd'⟩, ⟨hh, hh'⟩, ⟨hmin, hmin'⟩, hs, hs'⟩
  · rintro ⟨⟨hm, hd, hd'⟩, hh, hmin, hs⟩
    simp only [Fields.outOfRange, not_or, not_lt]
    exact ⟨hm.1, hm.2, hd, (hdays hm).symm ▸ hd', hh.1, hh.2, hmin.1, hmin.2, hs.1, hs.2⟩

/-- One second before the epoch it is December 1969. -/
theorem date_of_minus_one (h : InCalendar f) (ht : timegm f = -1) : f.year = 1969 ∧ f.month = 12 := by
  obtain ⟨⟨⟨hlow, hhigh⟩, hday, hdays⟩, hh, hmin, hs⟩ := h
  have hnumber : Calendar.dayNumber f.year f.month f.day = -1 := by
    unfold timegm at ht
    omega
  have hyear := Calendar.dayOfYear_lt (y := f.year) ⟨⟨hlow, hhigh⟩, hday, hdays⟩
  have hepoch : Calendar.leapsBefore 1970 = 477 := by decide
  have hleap : (if Calendar.IsLeap f.year then (1 : Int) else 0) ≤ 1 := by split_ifs <;> decide
  unfold Calendar.dayNumber at hnumber
  rw [hepoch] at hnumber
  have hnear : f.year = 1969 := by
    rcases lt_trichotomy f.year 1969 with hlt | heq | hgt
    · have hbefore := Calendar.leapsBefore_mono hlt.le
      have hleaps : Calendar.leapsBefore 1969 = 477 := by decide
      omega
    · exact heq
    · have hafter := Calendar.leapsBefore_mono (Int.add_one_le_iff.mpr hgt)
      norm_num [hepoch] at hafter
      omega
  refine ⟨hnear, ?_⟩
  rw [hnear] at hnumber hdays hyear
  have hleaps : Calendar.leapsBefore 1969 = 477 := by decide
  rw [hleaps] at hnumber
  unfold Calendar.daysBefore at hnumber
  unfold Calendar.daysInMonth at hdays
  have hplain : ¬Calendar.IsLeap 1969 := by decide
  rw [if_neg hplain] at hnumber hdays
  by_contra hmonth
  have hsmall : f.month ≤ 11 := by omega
  interval_cases f.month <;> simp_all <;> omega

end Ranges

end FileService.Time
