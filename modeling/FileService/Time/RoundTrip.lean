import FileService.Common.Ascii
import FileService.Safety.Addressing
import FileService.Time.Acceptance

/-!
# Timestamps that are written

The civil date of a day counts back to that day, so a written timestamp is read
back as its second, and the timestamp of a file source tells the second and the
millisecond.
-/
namespace FileService.Time
open FileService.Common FileService.Common.Ascii FileService.Common.Text FileService.Domain
open FileService.App FileService.Safety.IssuedSources FileService.Safety.Addressing
open FileService.Common.Crypto (octets)
open FileService.Transfer (isDigitOctet decimalValue)

/-! ## Civil dates -/

section Civil

/-- The civil date of a day is a date of the calendar, and its day is that day. -/
theorem civilFromDays_spec (n : Int) :
    Calendar.Valid (civilFromDays n).year (civilFromDays n).month (civilFromDays n).day ∧
      Calendar.dayNumber (civilFromDays n).year (civilFromDays n).month (civilFromDays n).day = n := by
  obtain ⟨era, hera⟩ : ∃ era, era = (n + 719468) / 146097 := ⟨_, rfl⟩
  obtain ⟨doe, hdoe⟩ : ∃ doe, doe = n + 719468 - era * 146097 := ⟨_, rfl⟩
  obtain ⟨yoe, hyoe⟩ : ∃ yoe, yoe = Calendar.plainDays doe / 365 := ⟨_, rfl⟩
  obtain ⟨doy, hdoy⟩ : ∃ doy, doy = doe - (365 * yoe + yoe / 4 - yoe / 100) := ⟨_, rfl⟩
  obtain ⟨month, hmonth⟩ : ∃ month, month = if (5 * doy + 2) / 153 < 10 then (5 * doy + 2) / 153 + 3
    else (5 * doy + 2) / 153 - 9 := ⟨_, rfl⟩
  have hcivil : civilFromDays n =
      { year := yoe + era * 400 + (if month ≤ 2 then 1 else 0)
        month
        day := doy - (153 * ((5 * doy + 2) / 153) + 2) / 5 + 1 } := by
    rw [hmonth, hdoy, hyoe, Calendar.plainDays, hdoe, hera]
    rfl
  have hrange : 0 ≤ doe ∧ doe < 146097 := by omega
  obtain ⟨hlow, hhigh, hfirst, hlast⟩ := Calendar.plainDays_div hrange
  rw [← hyoe] at hlow hhigh hfirst hlast
  have hcycle : yoe / 400 = 0 := by omega
  have hmarch : Calendar.marchDay yoe = 365 * yoe + yoe / 4 - yoe / 100 := by
    unfold Calendar.marchDay
    omega
  have hstep := Calendar.marchDay_succ_le ⟨hlow, hhigh⟩
  have hday : 0 ≤ doy ∧ doy ≤ 365 := by omega
  have hleap : doy = 365 → Calendar.IsLeap (yoe + era * 400 + 1) := by
    intro hlong
    have hyear := Calendar.isLeap_of_march ⟨hlow, hhigh⟩ (by omega)
    unfold Calendar.IsLeap at hyear ⊢
    omega
  have hvalid := Calendar.month_of_day hday hleap hmonth
  rw [hcivil]
  refine ⟨hvalid, ?_⟩
  dsimp only
  rw [Calendar.dayNumber_march hvalid.month]
  have hyear : (if month ≤ 2 then yoe + era * 400 + (if month ≤ 2 then 1 else 0) - 1
      else yoe + era * 400 + (if month ≤ 2 then 1 else 0)) = yoe + era * 400 := by
    split_ifs <;> omega
  have hmp : (if month ≤ 2 then month + 9 else month - 3) = (5 * doy + 2) / 153 := by
    rw [hmonth]
    split_ifs <;> omega
  have hdiv : (yoe + era * 400) / 400 = era := by omega
  have hmod : (yoe + era * 400) % 400 = yoe := by omega
  rw [hyear, hmp, hdiv, hmod]
  omega

end Civil

/-! ## Numerals of a width -/

/-- The characters are so many digits, and stand for the number. -/
structure Numeral (width : Nat) (n : Int) (cs : List Char) : Prop where
  length : cs.length = width
  digit : ∀ c ∈ cs, c.isDigit = true
  value : (Decimal.value cs : Int) = n

section Numerals
variable {width : Nat} {n m : Int} {cs : List Char} {s : String}

theorem Numeral.inj {ds : List Char} (h : Numeral width n cs) (h' : Numeral width m ds)
    (heq : cs = ds) : n = m := by
  rw [← h.value, ← h'.value, heq]

theorem value_zeros (k : Nat) : Decimal.value (List.replicate k '0') = 0 := by
  induction k with
  | zero => rfl
  | succ k ih =>
    rw [List.replicate_succ', Decimal.value_append_singleton, ih]
    rfl

theorem value_zeros_append (k : Nat) (cs : List Char) :
    Decimal.value (List.replicate k '0' ++ cs) = Decimal.value cs := by
  have hzero : Nat.ofDigitChars 10 (List.replicate k '0') 0 = 0 := value_zeros k
  rw [Decimal.value, Nat.ofDigitChars_append, hzero]
  rfl

/-- A number below the power is padded to the width. -/
theorem numeral_padded (hn : 0 ≤ n ∧ n < 10 ^ width) (hwidth : 0 < width) :
    Numeral width n (padded width n).toList := by
  obtain ⟨m, rfl⟩ := Int.eq_ofNat_of_zero_le hn.1
  have hsmall : m < 10 ^ width := by exact_mod_cast hn.2
  have hlength : (Nat.toDigits 10 m).length ≤ width :=
    (Nat.length_toDigits_le_iff (by decide) hwidth).mpr hsmall
  have hchars : (padded width m).toList =
      List.replicate (width - (Nat.toDigits 10 m).length) '0' ++ Nat.toDigits 10 m := by
    have hnumeral : (toString (m : Int)).toList = Nat.toDigits 10 m := Nat.toList_repr
    rw [padded, String.toList_ofList, hnumeral, List.leftpad]
  rw [hchars]
  refine ⟨?_, ?_, ?_⟩
  · rw [List.length_append, List.length_replicate]
    omega
  · intro c hc
    rcases List.mem_append.mp hc with hc | hc
    · rw [List.eq_of_mem_replicate hc]
      decide
    · exact Decimal.isDigit_of_mem hc
  · rw [value_zeros_append, Decimal.value, Nat.ofDigitChars_ten_toDigits]

/-- A number that fills the width needs no padding. -/
theorem numeral_toString (width : Nat) (hlow : 10 ^ width ≤ n) (hhigh : n < 10 ^ (width + 1)) :
    Numeral (width + 1) n (toString n).toList := by
  have hpos : (0 : Int) < 10 ^ width := by positivity
  obtain ⟨m, rfl⟩ := Int.eq_ofNat_of_zero_le (hpos.le.trans hlow)
  have hnumeral : (toString (m : Int)).toList = Nat.toDigits 10 m := Nat.toList_repr
  have hle : (Nat.toDigits 10 m).length ≤ width + 1 :=
    (Nat.length_toDigits_le_iff (by decide) (Nat.succ_pos _)).mpr (by exact_mod_cast hhigh)
  have hgt : ¬(Nat.toDigits 10 m).length ≤ width := by
    rcases Nat.eq_zero_or_pos width with rfl | hwidth
    · have hsome := Nat.length_toDigits_pos (b := 10) (n := m)
      omega
    · rw [Nat.length_toDigits_le_iff (by decide) hwidth, not_lt]
      exact_mod_cast hlow
  rw [hnumeral]
  refine ⟨by omega, fun c hc => Decimal.isDigit_of_mem hc, ?_⟩
  rw [Decimal.value, Nat.ofDigitChars_ten_toDigits]

theorem isDigitOctet_octetOf {c : Char} (h : c.isDigit = true) :
    isDigitOctet (octetOf c) = true ∧ (octetOf c).toNat = c.toNat := by
  obtain ⟨hlow, hhigh⟩ := Char.isDigit_iff_toNat.mp h
  have hbyte : (octetOf c).toNat = c.toNat := by
    have hsmall : c.toNat < 256 := hhigh.trans_lt (by decide)
    rw [octetOf, UInt8.toNat_ofNat', Nat.mod_eq_of_lt hsmall]
  rw [isDigitOctet, hbyte]
  exact ⟨by simpa using ⟨hlow, hhigh⟩, rfl⟩

/-- The octets of a numeral are a plain field of the same number. -/
theorem Numeral.octets (h : Numeral width n s.toList) :
    Plain width (Crypto.octets s) ∧ (decimalValue (Crypto.octets s) : Int) = n := by
  have hchars : Crypto.octets s = s.toList.map octetOf := by
    rw [← octets_ofList (isAscii_of_digits h.digit), String.ofList_toList]
  have hvalue : ∀ (cs : List Char), (∀ c ∈ cs, c.isDigit = true) → ∀ v : Nat,
      (cs.map octetOf).foldl (fun v c => v * 10 + (c.toNat - 48)) v = Nat.ofDigitChars 10 cs v := by
    intro cs hcs
    induction cs with
    | nil => exact fun v => rfl
    | cons c cs ih =>
      intro v
      have hc := (isDigitOctet_octetOf (hcs c List.mem_cons_self)).2
      have hzero : '0'.toNat = 48 := rfl
      rw [List.map_cons, List.foldl_cons, ih (fun d hd => hcs d (List.mem_cons_of_mem _ hd)), hc,
        Nat.ofDigitChars_cons, hzero, Nat.mul_comm]
  rw [hchars]
  refine ⟨⟨by rw [List.length_map, h.length], ?_⟩, ?_⟩
  · intro c hc
    obtain ⟨d, hd, rfl⟩ := List.mem_map.mp hc
    exact (isDigitOctet_octetOf (h.digit d hd)).1
  · rw [← h.value, decimalValue, hvalue _ h.digit 0]
    rfl

end Numerals

/-! ## Written instants -/

/-- `ToOsduTimestamp` -/
def toOsduTimestamp (epochSeconds millis : Int) : String :=
  let date := civilFromDays (epochSeconds / 86400)
  let s := epochSeconds % 86400
  toString date.year ++ "-" ++ padded 2 date.month ++ "-" ++ padded 2 date.day ++ "T" ++
    padded 2 (s / 3600) ++ ":" ++ padded 2 (s % 3600 / 60) ++ ":" ++ padded 2 (s % 60) ++ "." ++
    padded 3 (millis.tmod 1000) ++ "+0000"

section Instants
variable {sec ms : Int}

/-- The year of the second has four digits. -/
def FourDigitYear (sec : Int) : Prop :=
  1000 ≤ (civilFromDays (sec / 86400)).year ∧ (civilFromDays (sec / 86400)).year ≤ 9999

/-- The pieces of a second and a millisecond. -/
def stampOf (sec ms : Int) (zone : Bytes) : Stamp where
  year := octets (toString (civilFromDays (sec / 86400)).year)
  month := octets (padded 2 (civilFromDays (sec / 86400)).month)
  day := octets (padded 2 (civilFromDays (sec / 86400)).day)
  hour := octets (padded 2 (sec % 86400 / 3600))
  minute := octets (padded 2 (sec % 86400 % 3600 / 60))
  second := octets (padded 2 (sec % 86400 % 60))
  fraction := some (octets (padded 3 (ms.tmod 1000)))
  zone := zone

theorem octets_toIso8601Utc : octets (toIso8601Utc sec ms) = (stampOf sec ms [90]).text := by
  have hsigns : octets "-" = [45] ∧ octets "T" = [84] ∧ octets ":" = [58] ∧ octets "." = [46] ∧
      octets "Z" = [90] := by decide
  simp only [toIso8601Utc, octets_append, hsigns, stampOf, Stamp.text, Stamp.headBefore, Stamp.tail,
    List.append_assoc, List.cons_append, List.nil_append]

theorem octets_toOsduTimestamp :
    octets (toOsduTimestamp sec ms) = (stampOf sec ms [43, 48, 48, 48, 48]).text := by
  have hsigns : octets "-" = [45] ∧ octets "T" = [84] ∧ octets ":" = [58] ∧ octets "." = [46] ∧
      octets "+0000" = [43, 48, 48, 48, 48] := by decide
  simp only [toOsduTimestamp, octets_append, hsigns, stampOf, Stamp.text, Stamp.headBefore, Stamp.tail,
    List.append_assoc, List.cons_append, List.nil_append]

/-- The numerals that a second and a millisecond are written with. -/
structure Numerals (sec ms : Int) : Prop where
  year : Numeral 4 (civilFromDays (sec / 86400)).year
    (toString (civilFromDays (sec / 86400)).year).toList
  month : Numeral 2 (civilFromDays (sec / 86400)).month
    (padded 2 (civilFromDays (sec / 86400)).month).toList
  day : Numeral 2 (civilFromDays (sec / 86400)).day (padded 2 (civilFromDays (sec / 86400)).day).toList
  hour : Numeral 2 (sec % 86400 / 3600) (padded 2 (sec % 86400 / 3600)).toList
  minute : Numeral 2 (sec % 86400 % 3600 / 60) (padded 2 (sec % 86400 % 3600 / 60)).toList
  second : Numeral 2 (sec % 86400 % 60) (padded 2 (sec % 86400 % 60)).toList
  millis : Numeral 3 (ms.tmod 1000) (padded 3 (ms.tmod 1000)).toList

theorem numerals (hyear : FourDigitYear sec) (hms : 0 ≤ ms ∧ ms ≤ 999) : Numerals sec ms := by
  obtain ⟨hlow, hhigh⟩ := hyear
  obtain ⟨⟨⟨hm, hm'⟩, hd, hd'⟩, -⟩ := civilFromDays_spec (sec / 86400)
  have hmonth : Calendar.daysInMonth (civilFromDays (sec / 86400)).year
      (civilFromDays (sec / 86400)).month ≤ 31 := by
    unfold Calendar.daysInMonth
    split_ifs <;> decide
  have htmod : ms.tmod 1000 = ms := Int.tmod_eq_of_lt hms.1 (by omega)
  exact
    { year := numeral_toString 3 (by omega) (by omega)
      month := numeral_padded (by omega) (by decide)
      day := numeral_padded (by omega) (by decide)
      hour := numeral_padded (by omega) (by decide)
      minute := numeral_padded (by omega) (by decide)
      second := numeral_padded (by omega) (by decide)
      millis := numeral_padded (by rw [htmod]; omega) (by decide) }

/-- The written text is a timestamp of its second. -/
theorem written_stampOf {zone : Bytes} (hyear : FourDigitYear sec) (hms : 0 ≤ ms ∧ ms ≤ 999)
    (hzone : PlainZone zone 0) : Written (stampOf sec ms zone).text sec := by
  have h := numerals hyear hms
  obtain ⟨hvalid, hday⟩ := civilFromDays_spec (sec / 86400)
  have hfields : (stampOf sec ms zone).fields =
      { year := (civilFromDays (sec / 86400)).year
        month := (civilFromDays (sec / 86400)).month
        day := (civilFromDays (sec / 86400)).day
        hour := sec % 86400 / 3600
        minute := sec % 86400 % 3600 / 60
        second := sec % 86400 % 60 } := by
    simp only [Stamp.fields, stampOf, h.year.octets.2, h.month.octets.2, h.day.octets.2,
      h.hour.octets.2, h.minute.octets.2, h.second.octets.2]
  have hfraction : ∀ digits ∈ (stampOf sec ms zone).fraction,
      digits ≠ [] ∧ ∀ c ∈ digits, isDigitOctet c = true := by
    have hsome : (stampOf sec ms zone).fraction = some (octets (padded 3 (ms.tmod 1000))) := rfl
    obtain ⟨hlength, hdigit⟩ := h.millis.octets.1
    intro digits hdigits
    rw [hsome, Option.mem_some_iff] at hdigits
    rw [← hdigits]
    refine ⟨fun hnil => ?_, hdigit⟩
    rw [hnil] at hlength
    cases hlength
  have hplain : (stampOf sec ms zone).IsPlain := by
    refine ⟨?_, ?_, ?_, ?_, ?_, ?_, hfraction, 0, hzone⟩
    all_goals dsimp only [stampOf]
    exacts [h.year.octets.1, h.month.octets.1, h.day.octets.1, h.hour.octets.1, h.minute.octets.1,
      h.second.octets.1]
  refine ⟨stampOf sec ms zone, 0, rfl, hplain, ?_, hzone, ?_⟩
  · rw [hfields]
    refine ⟨hvalid, ?_, ?_, ?_⟩
    all_goals
      dsimp only
      omega
  · rw [hfields, timegm, hday]
    dsimp only
    omega

end Instants

/-! ## Timestamps of file sources -/

section FileSources
variable {sec ms sec' ms' : Int}

/-- Numerals of the widths of a timestamp, with dashes between them. -/
def dashed (sec ms : Int) : List Char :=
  (toString (civilFromDays (sec / 86400)).year).toList ++ '-' ::
    ((padded 2 (civilFromDays (sec / 86400)).month).toList ++ '-' ::
      ((padded 2 (civilFromDays (sec / 86400)).day).toList ++ '-' ::
        ((padded 2 (sec % 86400 / 3600)).toList ++ '-' ::
          ((padded 2 (sec % 86400 % 3600 / 60)).toList ++ '-' ::
            ((padded 2 (sec % 86400 % 60)).toList ++ '-' ::
              (padded 3 (ms.tmod 1000)).toList)))))

theorem map_digits {cs : List Char} (h : ∀ c ∈ cs, c.isDigit = true) :
    (cs.map fun c => if c = 'T' ∨ c = ':' then '-' else c) = cs := by
  conv_rhs => rw [← List.map_id cs]
  refine List.map_congr_left fun c hc => if_neg ?_
  rintro (rfl | rfl) <;> exact absurd (h _ hc) (by decide)

/-- The first nineteen characters of the text, with dashes in the place of its letters. -/
theorem toList_formatTimestamp (h : Numerals sec ms) :
    (formatTimestamp sec ms).toList = dashed sec ms := by
  obtain ⟨front, hfront⟩ : ∃ front, front =
      (toString (civilFromDays (sec / 86400)).year).toList ++ '-' ::
        ((padded 2 (civilFromDays (sec / 86400)).month).toList ++ '-' ::
          ((padded 2 (civilFromDays (sec / 86400)).day).toList ++ 'T' ::
            ((padded 2 (sec % 86400 / 3600)).toList ++ ':' ::
              ((padded 2 (sec % 86400 % 3600 / 60)).toList ++ ':' ::
                (padded 2 (sec % 86400 % 60)).toList)))) := ⟨_, rfl⟩
  have hlength : front.length = 19 := by
    simp only [hfront, List.length_append, List.length_cons, h.year.length, h.month.length,
      h.day.length, h.hour.length, h.minute.length, h.second.length]
  have hiso : (toIso8601Utc sec ms).toList =
      front ++ '.' :: ((padded 3 (ms.tmod 1000)).toList ++ ['Z']) := by
    rw [hfront]
    simp [toIso8601Utc, String.toList_append]
  have hlong : ¬(front ++ '.' :: ((padded 3 (ms.tmod 1000)).toList ++ ['Z'])).length < 20 := by
    rw [List.length_append, hlength, List.length_cons]
    omega
  have hmillis : ((front ++ '.' :: ((padded 3 (ms.tmod 1000)).toList ++ ['Z'])).drop 20).take 3 =
      (padded 3 (ms.tmod 1000)).toList := by
    rw [List.drop_append, hlength, List.drop_eq_nil_of_le (by omega), List.nil_append,
      show 20 - 19 = 1 from rfl, List.drop_one, List.tail_cons, List.take_left' h.millis.length]
  unfold formatTimestamp
  rw [hiso]
  dsimp only
  rw [if_neg hlong, hmillis, ← hlength, List.take_left, String.toList_ofList, hfront]
  simp only [List.map_append, List.map_cons, map_digits h.year.digit, map_digits h.month.digit,
    map_digits h.day.digit, map_digits h.hour.digit, map_digits h.minute.digit,
    map_digits h.second.digit, dashed]
  simp

theorem exists_pair {n : Int} {cs : List Char} (h : Numeral 2 n cs) :
    ∃ a b : Char, cs = [a, b] ∧ a.isDigit = true ∧ b.isDigit = true := by
  obtain ⟨a, b, rfl⟩ := List.length_eq_two.mp h.length
  exact ⟨a, b, rfl, h.digit a (by simp), h.digit b (by simp)⟩

theorem dash_notMem {width : Nat} {n : Int} {cs : List Char} (h : Numeral width n cs) : '-' ∉ cs :=
  fun hmem => absurd (h.digit _ hmem) (by decide)

theorem isAscii_dashed (h : Numerals sec ms) : IsAscii (dashed sec ms) := by
  have hdash : ∀ {cs : List Char}, IsAscii cs → IsAscii ('-' :: cs) := by
    intro cs hcs c hc
    rcases List.mem_cons.mp hc with rfl | hc
    · decide
    · exact hcs c hc
  have happend : ∀ {a b : List Char}, IsAscii a → IsAscii b → IsAscii (a ++ b) := by
    intro a b ha hb c hc
    exact (List.mem_append.mp hc).elim (ha c) (hb c)
  unfold dashed
  exact happend (isAscii_of_digits h.year.digit) (hdash (happend (isAscii_of_digits h.month.digit)
    (hdash (happend (isAscii_of_digits h.day.digit) (hdash (happend (isAscii_of_digits h.hour.digit)
      (hdash (happend (isAscii_of_digits h.minute.digit)
        (hdash (happend (isAscii_of_digits h.second.digit)
          (hdash (isAscii_of_digits h.millis.digit))))))))))))

/-- The dashes and digits stand where the policy looks for them. -/
theorem isTimestampShape_formatTimestamp (h : Numerals sec ms) :
    isTimestampShape (formatTimestamp sec ms) = true := by
  have hchars := toList_formatTimestamp h
  obtain ⟨y₁, y₂, y₃, y₄, hyear⟩ : ∃ a b c d, (toString (civilFromDays (sec / 86400)).year).toList =
      [a, b, c, d] := List.length_eq_four.mp h.year.length
  have hyears := h.year.digit
  rw [hyear] at hyears
  obtain ⟨o₁, o₂, hmonth, ho₁, ho₂⟩ := exists_pair h.month
  obtain ⟨d₁, d₂, hday, hd₁, hd₂⟩ := exists_pair h.day
  obtain ⟨h₁, h₂, hhour, hh₁, hh₂⟩ := exists_pair h.hour
  obtain ⟨m₁, m₂, hminute, hm₁, hm₂⟩ := exists_pair h.minute
  obtain ⟨s₁, s₂, hsecond, hs₁, hs₂⟩ := exists_pair h.second
  obtain ⟨f₁, f₂, f₃, hmillis⟩ := List.length_eq_three.mp h.millis.length
  have hfraction := h.millis.digit
  rw [hmillis] at hfraction
  have hsize : byteSize (formatTimestamp sec ms) = (dashed sec ms).length := by
    rw [← byteSize_ofList (isAscii_dashed h), ← hchars, String.ofList_toList]
  have hlist : dashed sec ms = [y₁, y₂, y₃, y₄, '-', o₁, o₂, '-', d₁, d₂, '-', h₁, h₂, '-', m₁, m₂, '-',
      s₁, s₂, '-', f₁, f₂, f₃] := by
    simp only [dashed, hyear, hmonth, hday, hhour, hminute, hsecond, hmillis, List.cons_append,
      List.nil_append]
  rw [isTimestampShape, hsize, hchars, hlist]
  simp_all

/-- A timestamp tells its second and its millisecond. -/
theorem formatTimestamp_inj (h : Numerals sec ms) (h' : Numerals sec' ms')
    (heq : formatTimestamp sec ms = formatTimestamp sec' ms') :
    sec = sec' ∧ ms.tmod 1000 = ms'.tmod 1000 := by
  have hlist := congrArg String.toList heq
  rw [toList_formatTimestamp h, toList_formatTimestamp h'] at hlist
  unfold dashed at hlist
  obtain ⟨hyear, hlist⟩ := Delimited.append_inj_of_notMem (dash_notMem h.year) (dash_notMem h'.year) hlist
  obtain ⟨hmonth, hlist⟩ :=
    Delimited.append_inj_of_notMem (dash_notMem h.month) (dash_notMem h'.month) hlist
  obtain ⟨hday, hlist⟩ := Delimited.append_inj_of_notMem (dash_notMem h.day) (dash_notMem h'.day) hlist
  obtain ⟨hhour, hlist⟩ := Delimited.append_inj_of_notMem (dash_notMem h.hour) (dash_notMem h'.hour) hlist
  obtain ⟨hminute, hlist⟩ :=
    Delimited.append_inj_of_notMem (dash_notMem h.minute) (dash_notMem h'.minute) hlist
  obtain ⟨hsecond, hmillis⟩ :=
    Delimited.append_inj_of_notMem (dash_notMem h.second) (dash_notMem h'.second) hlist
  have hyears := h.year.inj h'.year hyear
  have hmonths := h.month.inj h'.month hmonth
  have hdays := h.day.inj h'.day hday
  have hhours := h.hour.inj h'.hour hhour
  have hminutes := h.minute.inj h'.minute hminute
  have hseconds := h.second.inj h'.second hsecond
  have hnumber : sec / 86400 = sec' / 86400 := by
    rw [← (civilFromDays_spec (sec / 86400)).2, hyears, hmonths, hdays,
      (civilFromDays_spec (sec' / 86400)).2]
  exact ⟨by omega, h.millis.inj h'.millis hmillis⟩

/-- The other parts are what the policy asks of them. -/
structure Acceptable (parts : SourcePath) : Prop where
  user : isSafeSegment parts.userId = true
  file : isSafeSegment parts.fileId = true
  fileLength : byteSize parts.fileId ≤ maxFileIdLength
  epoch : 0 < parts.epochMillis ∧ parts.epochMillis < 2 ^ 63
  length : byteSize ("/" ++ makePosixKey parts) ≤ maxFileSourceLength

theorem accepted_of_shape {parts : SourcePath} (h : Acceptable parts)
    (hshape : isTimestampShape parts.timestamp = true) :
    makeFileSource parts = .ok ("/" ++ makePosixKey parts) ∧
      parseFileSource ("/" ++ makePosixKey parts) = .ok parts := by
  have hmade : Made parts ("/" ++ makePosixKey parts) :=
    { user := h.user
      file := h.file
      fileLength := h.fileLength
      epoch := h.epoch.1
      timestamp := hshape
      length := h.length
      chars := by simp [makePosixKey, String.toList_append] }
  exact ⟨makeFileSource_of_made hmade, parseFileSource_of_made hmade h.epoch.2⟩

end FileSources

/-- Timestamps of years of four digits are read back as their seconds, are accepted in file
sources, and are different for different seconds or milliseconds. -/
theorem timestamps_round_trip (sec ms : Int) (hyear : FourDigitYear sec) (hms : 0 ≤ ms ∧ ms ≤ 999) :
    parseIso8601 (octets (toIso8601Utc sec ms)) = .ok sec ∧
      parseOsduTimestamp (octets (toOsduTimestamp sec ms)) = .ok sec ∧
      (∀ parts, parts.timestamp = formatTimestamp sec ms → Acceptable parts →
        makeFileSource parts = .ok ("/" ++ makePosixKey parts) ∧
          parseFileSource ("/" ++ makePosixKey parts) = .ok parts) ∧
      ∀ sec' ms', FourDigitYear sec' → 0 ≤ ms' ∧ ms' ≤ 999 →
        formatTimestamp sec ms = formatTimestamp sec' ms' → sec = sec' ∧ ms = ms' := by
  have hnumerals := numerals hyear hms
  have htmod : ∀ ms : Int, 0 ≤ ms ∧ ms ≤ 999 → ms.tmod 1000 = ms := fun ms h =>
    Int.tmod_eq_of_lt h.1 (by omega)
  refine ⟨?_, ?_, ?_, ?_⟩
  · rw [octets_toIso8601Utc]
    exact parseIso8601_of_written (written_stampOf hyear hms .utc)
  · have hplain : ∀ {field : Bytes}, field = [48, 48] → Plain 2 field := by
      rintro field rfl
      exact ⟨rfl, List.forall_mem_cons.mpr ⟨by decide, List.forall_mem_singleton.mpr (by decide)⟩⟩
    have hzone : PlainZone [43, 48, 48, 48, 48] 0 :=
      .offset (.inl rfl) (hplain rfl) (.inl rfl) (hplain rfl) (by decide) (by decide)
    rw [octets_toOsduTimestamp]
    exact parseIso8601_of_written (written_stampOf hyear hms hzone)
  · intro parts hts hparts
    exact accepted_of_shape hparts (hts ▸ isTimestampShape_formatTimestamp hnumerals)
  · intro sec' ms' hyear' hms' heq
    obtain ⟨hsec, hmillis⟩ := formatTimestamp_inj hnumerals (numerals hyear' hms') heq
    rw [htmod ms hms, htmod ms' hms'] at hmillis
    exact ⟨hsec, hmillis⟩

theorem timestamps_round_trip_march :
    parseIso8601 (octets (toIso8601Utc 1614784413 120)) = .ok 1614784413 ∧
      parseOsduTimestamp (octets (toOsduTimestamp 1614784413 120)) = .ok 1614784413 :=
  have h := timestamps_round_trip 1614784413 120 ⟨by decide, by decide⟩ ⟨by decide, by decide⟩
  ⟨h.1, h.2.1⟩

end FileService.Time
