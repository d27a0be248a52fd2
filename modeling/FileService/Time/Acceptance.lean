import FileService.Time.Timestamp

/-!
# Accepted timestamps

A timestamp is made of plain digits in fixed places, a fraction and an offset.
The reader takes all of these and gives their instant. It also takes texts with
blanks and signs in the place of digits, a point without digits, and anything
behind the `Z` or the offset.
-/
namespace FileService.Time
open FileService.Common FileService.Domain
open FileService.Common.Crypto (octets)
open FileService.Transfer (isDigitOctet isSpaceOctet decimalValue)

/-- The pieces of a timestamp. -/
structure Stamp where
  year : Bytes
  month : Bytes
  day : Bytes
  hour : Bytes
  minute : Bytes
  second : Bytes
  fraction : Option Bytes
  zone : Bytes

namespace Stamp
variable (p : Stamp)

/-- The date and the time of the day, in front of a tail. -/
def headBefore (tail : Bytes) : Bytes :=
  p.year ++ 45 :: (p.month ++ 45 :: (p.day ++ 84 :: (p.hour ++ 58 :: (p.minute ++ 58 ::
    (p.second ++ tail)))))

def tail : Bytes :=
  match p.fraction with
  | some digits => 46 :: (digits ++ p.zone)
  | none => p.zone

def text : Bytes := p.headBefore p.tail

/-- The numbers that the digits of the pieces stand for. -/
def fields : Fields where
  year := decimalValue p.year
  month := decimalValue p.month
  day := decimalValue p.day
  hour := decimalValue p.hour
  minute := decimalValue p.minute
  second := decimalValue p.second

end Stamp

/-! ## The grammar -/

/-- `Z`, or a sign with two digits of hours and two of minutes, or nothing; and the minutes. -/
inductive PlainZone : Bytes → Int → Prop
  | none : PlainZone [] 0
  | utc : PlainZone [90] 0
  | offset {sign : UInt8} {hh sep mm : Bytes} (hsign : sign = 43 ∨ sign = 45) (hours : Plain 2 hh)
    (hsep : sep = [] ∨ sep = [58]) (minutes : Plain 2 mm) (hh_le : decimalValue hh ≤ 23)
    (mm_le : decimalValue mm ≤ 59) :
    PlainZone (sign :: (hh ++ (sep ++ mm)))
      (if sign = 45 then -((decimalValue hh : Int) * 60 + decimalValue mm)
        else (decimalValue hh : Int) * 60 + decimalValue mm)

/-- All pieces are digits in their full width, and nothing stands behind the zone. -/
structure Stamp.IsPlain (p : Stamp) : Prop where
  year : Plain 4 p.year
  month : Plain 2 p.month
  day : Plain 2 p.day
  hour : Plain 2 p.hour
  minute : Plain 2 p.minute
  second : Plain 2 p.second
  fraction : ∀ digits ∈ p.fraction, digits ≠ [] ∧ ∀ c ∈ digits, isDigitOctet c = true
  zone : ∃ minutes, PlainZone p.zone minutes

/-- The text is a timestamp of this epoch second. -/
def Written (text : Bytes) (t : Int) : Prop :=
  ∃ (p : Stamp) (minutes : Int), p.text = text ∧ p.IsPlain ∧ InCalendar p.fields ∧
    PlainZone p.zone minutes ∧ t = timegm p.fields - minutes * 60

/-! ## What is taken besides -/

/-- Two numbers with a colon between them in a text of five octets, or one behind the other; each
is one or two digits, perhaps behind blanks and a sign, and anything may follow. -/
def LooseOffset (rest : Bytes) (hours minutes : Int) : Prop :=
  (rest.length = 5 ∧ rest[2]? = some 58 ∧ ∃ hh mm behind, cString rest = hh ++ 58 :: (mm ++ behind) ∧
    Takes 2 hh (58 :: (mm ++ behind)) hours ∧ Takes 2 mm behind minutes) ∨
  (¬(rest.length = 5 ∧ rest[2]? = some 58) ∧ 4 ≤ rest.length ∧
    ∃ hh mm behind, cString rest = hh ++ (mm ++ behind) ∧ Takes 2 hh (mm ++ behind) hours ∧
      Takes 2 mm behind minutes)

inductive LooseZone : Bytes → Int → Prop
  | none : LooseZone [] 0
  | utc (behind : Bytes) : LooseZone (90 :: behind) 0
  | offset {sign : UInt8} {rest : Bytes} {hours minutes : Int} (hsign : sign = 43 ∨ sign = 45)
    (h : LooseOffset rest hours minutes) (hours_le : hours ≤ 23) (minutes_le : minutes ≤ 59) :
    LooseZone (sign :: rest)
      (if sign = 45 then -(hours * 60 + minutes) else hours * 60 + minutes)

/-- The pieces can be read as these fields: each number may have blanks and a sign in front of its
digits and may have fewer of them, as long as the lengths add up. -/
structure Stamp.Reads (p : Stamp) (f : Fields) (minutes : Int) : Prop where
  year : Takes 4 p.year [] f.year
  month : Takes 2 p.month [] f.month
  day : Takes 2 p.day [] f.day
  hour : Takes 2 p.hour [] f.hour
  minute : Takes 2 p.minute [] f.minute
  second : Takes 2 p.second [] f.second
  length : (p.headBefore []).length = 19
  calendar : InCalendar f
  fraction : ∀ digits ∈ p.fraction, ∀ c ∈ digits, isDigitOctet c = true
  zone : LooseZone p.zone minutes

/-- The text can be read as a date and a time although its pieces are not plain. -/
def Loose (text : Bytes) : Prop :=
  ∃ (p : Stamp) (f : Fields) (minutes : Int), p.text = text ∧ p.Reads f minutes ∧ ¬p.IsPlain

/-! ## Offsets -/

section Zones
variable {zone rest : Bytes} {hours minutes : Int} {c : UInt8}

theorem digit_of_head_cons {c : UInt8} {rest : Bytes} (hc : isDigitOctet c = false) :
    ∀ d ∈ (c :: rest).head?, isDigitOctet d = false := by
  rintro d ⟨⟩
  exact hc

theorem scanOffset_iff : scanOffset rest = some (hours, minutes) ↔ LooseOffset rest hours minutes := by
  unfold scanOffset LooseOffset
  by_cases hcolon : rest.length = 5 ∧ rest[2]? = some 58
  · rw [if_pos hcolon]
    simp only [hcolon, not_true_eq_false, false_and, or_false, true_and, Option.bind_eq_bind,
      Option.bind_eq_some_iff, Option.pure_def, Option.some.injEq, Prod.mk.injEq]
    constructor
    · rintro ⟨⟨v, text⟩, hfirst, text', hliteral, ⟨w, behind⟩, hsecond, rfl, rfl⟩
      obtain ⟨hh, hsplit, htakes⟩ := takes_of_scanInt hfirst
      obtain rfl := scanLiteral_eq_some.mp hliteral
      obtain ⟨mm, rfl, htakes'⟩ := takes_of_scanInt hsecond
      exact ⟨hh, mm, behind, hsplit, htakes, htakes'⟩
    · rintro ⟨hh, mm, behind, hsplit, htakes, htakes'⟩
      refine ⟨(hours, _), hsplit ▸ scanInt_of_takes htakes, _, scanLiteral_eq_some.mpr rfl,
        (minutes, _), scanInt_of_takes htakes', rfl, rfl⟩
  · rw [if_neg hcolon]
    by_cases hlong : 4 ≤ rest.length
    · rw [if_pos hlong]
      have hnot : ¬(rest.length = 5 ∧ rest[2]? = some 58 ∧ ∃ hh mm behind,
          cString rest = hh ++ 58 :: (mm ++ behind) ∧ Takes 2 hh (58 :: (mm ++ behind)) hours ∧
            Takes 2 mm behind minutes) := fun h => hcolon ⟨h.1, h.2.1⟩
      simp only [hnot, hcolon, false_or, not_false_eq_true, hlong, true_and, Option.bind_eq_bind,
        Option.bind_eq_some_iff, Option.pure_def, Option.some.injEq, Prod.mk.injEq]
      constructor
      · rintro ⟨⟨v, text⟩, hfirst, ⟨w, behind⟩, hsecond, rfl, rfl⟩
        obtain ⟨hh, hsplit, htakes⟩ := takes_of_scanInt hfirst
        obtain ⟨mm, rfl, htakes'⟩ := takes_of_scanInt hsecond
        exact ⟨hh, mm, behind, hsplit, htakes, htakes'⟩
      · rintro ⟨hh, mm, behind, hsplit, htakes, htakes'⟩
        exact ⟨(hours, _), hsplit ▸ scanInt_of_takes htakes, (minutes, _), scanInt_of_takes htakes',
          rfl, rfl⟩
    · rw [if_neg hlong]
      constructor
      · intro h
        cases h
      · rintro (⟨hfive, hthird, -⟩ | ⟨-, hfour, -⟩)
        · exact absurd ⟨hfive, hthird⟩ hcolon
        · exact absurd hfour hlong

theorem parseOffset_iff : parseOffset zone = .ok minutes ↔ LooseZone zone minutes := by
  constructor
  · intro h
    cases zone with
    | nil =>
      cases h
      exact .none
    | cons c rest =>
      rw [parseOffset] at h
      by_cases hutc : c = 90
      · rw [if_pos hutc] at h
        cases h
        exact hutc ▸ .utc rest
      · rw [if_neg hutc] at h
        by_cases hsign : c = 43 ∨ c = 45
        · rw [if_pos hsign] at h
          cases hscan : scanOffset rest with
          | none =>
            rw [hscan] at h
            cases h
          | some numbers =>
            obtain ⟨hh, mm⟩ := numbers
            rw [hscan] at h
            dsimp only at h
            by_cases hrange : 23 < hh ∨ 59 < mm
            · rw [if_pos hrange] at h
              cases h
            · rw [if_neg hrange] at h
              obtain ⟨hhours, hminutes⟩ := not_or.mp hrange
              cases h
              exact .offset hsign (scanOffset_iff.mp hscan) (not_lt.mp hhours) (not_lt.mp hminutes)
        · rw [if_neg hsign] at h
          cases h
  · intro h
    cases h with
    | none => rfl
    | utc behind => rfl
    | @offset sign rest hh mm hsign h hhours hminutes =>
      have hne : sign ≠ 90 := by
        rcases hsign with rfl | rfl <;> decide
      have hrange : ¬(23 < hh ∨ 59 < mm) := not_or.mpr ⟨not_lt.mpr hhours, not_lt.mpr hminutes⟩
      rw [parseOffset, if_neg hne, if_pos hsign, scanOffset_iff.mpr h]
      dsimp only
      rw [if_neg hrange]

theorem LooseZone.unique {minutes' : Int} (h : LooseZone zone minutes) (h' : LooseZone zone minutes') :
    minutes = minutes' :=
  Except.ok.inj ((parseOffset_iff.mpr h).symm.trans (parseOffset_iff.mpr h'))

theorem Plain.cString_append {width : Nat} {field : Bytes} (h : Plain width field) :
    cString (field ++ rest) = field ++ cString rest := by
  refine List.takeWhile_append_of_pos fun c hc => ?_
  have hdigit := h.digit c hc
  rw [decide_eq_true_eq]
  rintro rfl
  exact absurd hdigit (by decide)

theorem Plain.cString_eq {width : Nat} {field : Bytes} (h : Plain width field) :
    cString field = field := by
  have happend : cString (field ++ []) = field ++ cString [] := h.cString_append
  have hnil : cString [] = [] := rfl
  rwa [hnil, List.append_nil] at happend

/-- A plain zone is read as it is meant. -/
theorem PlainZone.loose (h : PlainZone zone minutes) : LooseZone zone minutes := by
  cases h with
  | none => exact .none
  | utc => exact .utc []
  | @offset sign hh sep mm hsign hours hsep mins hh_le mm_le =>
    refine .offset hsign ?_ (by exact_mod_cast hh_le) (by exact_mod_cast mm_le)
    have hhh := hours.length
    have hmm := mins.length
    rcases hsep with rfl | rfl
    · right
      have hlength : (hh ++ ([] ++ mm)).length = 4 := by simp [hhh, hmm]
      refine ⟨by omega, hlength.ge, hh, mm, [], ?_, takes_of_plain hours (by decide),
        takes_of_plain mins (by decide)⟩
      rw [List.nil_append, List.append_nil, hours.cString_append, mins.cString_eq]
    · left
      have hthird : (hh ++ ([58] ++ mm))[2]? = some 58 := by
        rw [List.getElem?_append_right (by omega), hhh]
        rfl
      refine ⟨by simp [hhh, hmm], hthird, hh, mm, [], ?_, takes_of_plain hours (by decide),
        takes_of_plain mins (by decide)⟩
      rw [hours.cString_append, List.singleton_append, cString, List.takeWhile_cons_of_pos (by decide),
        List.append_nil]
      exact congrArg (fun t => hh ++ 58 :: t) mins.cString_eq

/-- No zone starts with a digit or a point. -/
theorem LooseZone.head (h : LooseZone zone minutes) :
    ∀ c ∈ zone.head?, isDigitOctet c = false ∧ c ≠ 46 ∧ c ≠ 0 := by
  cases h with
  | none => simp
  | utc behind =>
    rintro c ⟨⟩
    decide
  | offset hsign =>
    rintro c ⟨⟩
    rcases hsign with rfl | rfl <;> decide

end Zones

/-! ## Heads -/

section Heads
variable {p q : Stamp} {f g : Fields} {minutes minutes' t : Int} {text rest tail : Bytes}

theorem takes_before {width : Nat} {field : Bytes} {v : Int} {c : UInt8}
    (h : Takes width field [] v) (hc : isDigitOctet c = false) : Takes width field (c :: rest) v :=
  h.of_rest (digit_of_head_cons hc)

/-- Pieces that can be read are scanned, whatever follows that is no digit. -/
theorem scanStamp_of_reads (h : p.Reads f minutes) (htail : ∀ c ∈ tail.head?, isDigitOctet c = false) :
    scanStamp (p.headBefore tail) = some (f, tail) := by
  unfold scanStamp Stamp.headBefore
  rw [scanInt_of_takes (takes_before h.year (by decide))]
  simp only [Option.bind_eq_bind, Option.bind_some, scanLiteral, if_true]
  rw [scanInt_of_takes (takes_before h.month (by decide))]
  simp only [Option.bind_some, if_true]
  rw [scanInt_of_takes (takes_before h.day (by decide))]
  simp only [Option.bind_some, if_true]
  rw [scanInt_of_takes (takes_before h.hour (by decide))]
  simp only [Option.bind_some, if_true]
  rw [scanInt_of_takes (takes_before h.minute (by decide))]
  simp only [Option.bind_some, if_true]
  rw [scanInt_of_takes (h.second.of_rest htail)]
  rfl

/-- What a scanned text begins with. -/
theorem scanStamp_spec (h : scanStamp text = some (f, rest)) :
    ∃ p : Stamp, text = p.headBefore rest ∧ Takes 4 p.year [] f.year ∧ Takes 2 p.month [] f.month ∧
      Takes 2 p.day [] f.day ∧ Takes 2 p.hour [] f.hour ∧ Takes 2 p.minute [] f.minute ∧
      Takes 2 p.second [] f.second := by
  unfold scanStamp at h
  simp only [Option.bind_eq_bind, Option.bind_eq_some_iff, Option.pure_def, Option.some.injEq,
    Prod.mk.injEq] at h
  obtain ⟨⟨y, t₁⟩, hy, t₂, hl₁, ⟨mo, t₃⟩, hmo, t₄, hl₂, ⟨d, t₅⟩, hd, t₆, hl₃, ⟨hr, t₇⟩, hhr, t₈, hl₄,
    ⟨mi, t₉⟩, hmi, t₁₀, hl₅, ⟨s, t₁₁⟩, hs, hf, hrest⟩ := h
  dsimp only at hl₁ hl₂ hl₃ hl₄ hl₅ hf hrest
  obtain ⟨year, rfl, hyear⟩ := takes_of_scanInt hy
  obtain rfl := scanLiteral_eq_some.mp hl₁
  obtain ⟨month, rfl, hmonth⟩ := takes_of_scanInt hmo
  obtain rfl := scanLiteral_eq_some.mp hl₂
  obtain ⟨day, rfl, hday⟩ := takes_of_scanInt hd
  obtain rfl := scanLiteral_eq_some.mp hl₃
  obtain ⟨hour, rfl, hhour⟩ := takes_of_scanInt hhr
  obtain rfl := scanLiteral_eq_some.mp hl₄
  obtain ⟨minute, rfl, hminute⟩ := takes_of_scanInt hmi
  obtain rfl := scanLiteral_eq_some.mp hl₅
  obtain ⟨second, rfl, hsecond⟩ := takes_of_scanInt hs
  subst hf hrest
  exact ⟨⟨year, month, day, hour, minute, second, none, []⟩, rfl, hyear.of_rest (by simp),
    hmonth.of_rest (by simp), hday.of_rest (by simp), hhour.of_rest (by simp),
    hminute.of_rest (by simp), hsecond.of_rest (by simp)⟩

theorem headBefore_append (p : Stamp) (tail : Bytes) :
    p.headBefore tail = p.headBefore [] ++ tail := by
  simp [Stamp.headBefore]

theorem ne_nul_of_takes {width : Nat} {field : Bytes} {v : Int} {c : UInt8}
    (h : Takes width field rest v) (hc : c ∈ field) : c ≠ 0 := by
  rintro rfl
  exact absurd (mem_of_takes h hc) (by decide)

/-- There is no NUL in the front of a timestamp. -/
theorem cString_headBefore (hyear : Takes 4 p.year [] f.year) (hmonth : Takes 2 p.month [] f.month)
    (hday : Takes 2 p.day [] f.day) (hhour : Takes 2 p.hour [] f.hour)
    (hminute : Takes 2 p.minute [] f.minute) (hsecond : Takes 2 p.second [] f.second) :
    cString (p.headBefore tail) = p.headBefore (cString tail) := by
  rw [headBefore_append p tail, headBefore_append p (cString tail)]
  refine List.takeWhile_append_of_pos fun c hc => ?_
  rw [decide_eq_true_eq]
  simp only [Stamp.headBefore, List.mem_append, List.mem_cons, List.append_nil] at hc
  rcases hc with hc | rfl | hc | rfl | hc | rfl | hc | rfl | hc | rfl | hc
  · exact ne_nul_of_takes hyear hc
  · decide
  · exact ne_nul_of_takes hmonth hc
  · decide
  · exact ne_nul_of_takes hday hc
  · decide
  · exact ne_nul_of_takes hhour hc
  · decide
  · exact ne_nul_of_takes hminute hc
  · decide
  · exact ne_nul_of_takes hsecond hc

theorem head_of_tail (h : p.Reads f minutes) : ∀ c ∈ p.tail.head?, isDigitOctet c = false ∧ c ≠ 0 := by
  unfold Stamp.tail
  cases p.fraction with
  | none => exact fun c hc => ⟨(h.zone.head c hc).1, (h.zone.head c hc).2.2⟩
  | some digits =>
    rintro c ⟨⟩
    decide

theorem head_of_cString (h : ∀ c ∈ tail.head?, isDigitOctet c = false ∧ c ≠ 0) :
    ∀ c ∈ (cString tail).head?, isDigitOctet c = false := by
  cases tail with
  | nil => simp [cString]
  | cons d tail =>
    have hd := h d rfl
    rw [cString, List.takeWhile_cons_of_pos (by simpa using hd.2)]
    exact digit_of_head_cons hd.1

theorem afterFraction_tail (h : p.Reads f minutes) : afterFraction p.tail = p.zone := by
  have hhead := h.zone.head
  have hdigits := h.fraction
  unfold afterFraction Stamp.tail
  cases hfraction : p.fraction with
  | none => exact if_neg fun hpoint => (hhead 46 hpoint).2.1 rfl
  | some digits =>
    rw [List.head?_cons, if_pos rfl, List.tail_cons,
      List.dropWhile_append_of_pos (hdigits digits hfraction)]
    cases hzone : p.zone with
    | nil => rfl
    | cons c rest =>
      rw [hzone] at hhead
      exact List.dropWhile_cons_of_neg (by simp [(hhead c rfl).1])

/-- What is cut off the tail as a fraction. -/
theorem exists_fraction (tail : Bytes) : ∃ fraction : Option Bytes,
    (∀ digits ∈ fraction, ∀ c ∈ digits, isDigitOctet c = true) ∧
      (match fraction with
        | some digits => 46 :: (digits ++ afterFraction tail)
        | none => afterFraction tail) = tail := by
  unfold afterFraction
  split_ifs with hpoint
  · cases tail with
    | nil => cases hpoint
    | cons c tail =>
      obtain rfl : c = 46 := Option.some.inj hpoint
      refine ⟨some (tail.takeWhile isDigitOctet), ?_, ?_⟩
      · rintro digits ⟨⟩ c hc
        exact List.mem_takeWhile_imp hc
      · exact congrArg (46 :: ·) List.takeWhile_append_dropWhile
  · exact ⟨none, by simp, rfl⟩

/-- The reader accepts what can be read, and gives the instant of what it read. -/
theorem parseIso8601_iff : parseIso8601 text = .ok t ↔
    ∃ (p : Stamp) (f : Fields) (minutes : Int), p.text = text ∧ p.Reads f minutes ∧
      t = timegm f - minutes * 60 := by
  constructor
  · intro h
    unfold parseIso8601 parseCommon at h
    by_cases hshort : text.length < 19
    · rw [if_pos hshort] at h
      cases h
    rw [if_neg hshort] at h
    cases hscan : scanStamp (cString text) with
    | none =>
      rw [hscan] at h
      cases h
    | some scanned =>
      obtain ⟨f, rest⟩ := scanned
      rw [hscan] at h
      dsimp only at h
      by_cases hconsumed : (cString text).length - rest.length = 19
      · rw [if_neg (not_not.mpr hconsumed)] at h
        by_cases hrange : f.outOfRange
        · rw [if_pos hrange] at h
          cases h
        rw [if_neg hrange] at h
        cases hoffset : parseOffset (afterFraction (text.drop 19)) with
        | error e =>
          rw [hoffset] at h
          cases h
        | ok minutes =>
          rw [hoffset] at h
          dsimp only at h
          split_ifs at h
          cases h
          obtain ⟨p, htext, hyear, hmonth, hday, hhour, hminute, hsecond⟩ := scanStamp_spec hscan
          obtain ⟨fraction, hfraction, htail⟩ := exists_fraction (text.drop 19)
          have hlength : (p.headBefore []).length = 19 := by
            rw [htext, headBefore_append, List.length_append, Nat.add_sub_cancel] at hconsumed
            exact hconsumed
          have hwhole : text = p.headBefore [] ++ text.drop 19 := by
            have hinitial : p.headBefore [] <+: text :=
              (htext.trans (headBefore_append p rest) ▸ List.prefix_append _ _ :
                p.headBefore [] <+: cString text).trans (List.takeWhile_prefix _)
            obtain ⟨later, rfl⟩ := hinitial
            rw [← hlength, List.drop_left]
          refine ⟨{ p with fraction := fraction, zone := afterFraction (text.drop 19) }, f, minutes,
            ?_, ?_, rfl⟩
          · conv_rhs => rw [hwhole]
            exact (headBefore_append p _).trans (congrArg (p.headBefore [] ++ ·) htail)
          · exact ⟨hyear, hmonth, hday, hhour, hminute, hsecond, hlength, not_outOfRange.mp hrange,
              hfraction, parseOffset_iff.mp hoffset⟩
      · rw [if_pos hconsumed] at h
        cases h
  · rintro ⟨p, f, minutes, rfl, h, rfl⟩
    have hhead := head_of_tail h
    have hcut : cString p.text = p.headBefore (cString p.tail) :=
      cString_headBefore h.year h.month h.day h.hour h.minute h.second
    have hconsumed : (cString p.text).length - (cString p.tail).length = 19 := by
      rw [hcut, headBefore_append, List.length_append, Nat.add_sub_cancel, h.length]
    have hwhole : p.text = p.headBefore [] ++ p.tail := headBefore_append p p.tail
    have hlong : ¬p.text.length < 19 := by
      rw [hwhole, List.length_append, h.length]
      omega
    have hdrop : p.text.drop 19 = p.tail := by
      rw [hwhole, ← h.length, List.drop_left]
    have hinstant : ¬(timegm f = -1 ∧ ¬(f.year = 1969 ∧ f.month = 12)) := fun hbad =>
      hbad.2 (date_of_minus_one h.calendar hbad.1)
    unfold parseIso8601 parseCommon
    rw [if_neg hlong, hcut, scanStamp_of_reads h (head_of_cString hhead)]
    dsimp only
    rw [← hcut, if_neg (not_not.mpr hconsumed), if_neg (not_outOfRange.mpr h.calendar), hdrop,
      afterFraction_tail h, parseOffset_iff.mpr h.zone]
    dsimp only
    rw [if_neg hinstant]

/-! ## One reading -/

theorem takes_unique {width : Nat} {a b r r' : Bytes} {v w : Int} (h : Takes width a r v)
    (h' : Takes width b r' w) (heq : a ++ r = b ++ r') : a = b ∧ r = r' := by
  have hscan := scanInt_of_takes h
  rw [heq, scanInt_of_takes h'] at hscan
  obtain ⟨-, rfl⟩ := Prod.mk.inj (Option.some.inj hscan)
  exact ⟨List.append_cancel_right heq, rfl⟩

theorem takes_unique_before {width : Nat} {a b r r' : Bytes} {v w : Int} {c : UInt8}
    (hc : isDigitOctet c = false) (h : Takes width a [] v) (h' : Takes width b [] w)
    (heq : a ++ c :: r = b ++ c :: r') : a = b ∧ r = r' := by
  obtain ⟨hfield, hrest⟩ := takes_unique (takes_before h hc) (takes_before h' hc) heq
  exact ⟨hfield, (List.cons.inj hrest).2⟩

theorem tail_unique (h : p.Reads f minutes) (h' : q.Reads g minutes') (heq : p.tail = q.tail) :
    p.fraction = q.fraction ∧ p.zone = q.zone := by
  have hzone : p.zone = q.zone := by
    rw [← afterFraction_tail h, ← afterFraction_tail h', heq]
  refine ⟨?_, hzone⟩
  have hhead := h.zone.head
  have hhead' := h'.zone.head
  unfold Stamp.tail at heq
  cases hp : p.fraction with
  | none =>
    rw [hp] at heq
    dsimp only at heq
    cases hq : q.fraction with
    | none => rfl
    | some digits' =>
      rw [hq] at heq
      dsimp only at heq
      exact absurd rfl (hhead 46 (by rw [heq]; rfl)).2.1
  | some digits =>
    rw [hp] at heq
    dsimp only at heq
    cases hq : q.fraction with
    | none =>
      rw [hq] at heq
      dsimp only at heq
      exact absurd rfl (hhead' 46 (by rw [← heq]; rfl)).2.1
    | some digits' =>
      rw [hq, hzone] at heq
      exact congrArg some (List.append_cancel_right (List.cons.inj heq).2)

/-- A text can be read in one way only. -/
theorem reads_unique (h : p.Reads f minutes) (h' : q.Reads g minutes') (heq : p.text = q.text) :
    p = q := by
  have htail : ∀ c ∈ p.tail.head?, isDigitOctet c = false := fun c hc => (head_of_tail h c hc).1
  have htail' : ∀ c ∈ q.tail.head?, isDigitOctet c = false := fun c hc => (head_of_tail h' c hc).1
  unfold Stamp.text Stamp.headBefore at heq
  obtain ⟨hyear, heq⟩ := takes_unique_before (by decide) h.year h'.year heq
  obtain ⟨hmonth, heq⟩ := takes_unique_before (by decide) h.month h'.month heq
  obtain ⟨hday, heq⟩ := takes_unique_before (by decide) h.day h'.day heq
  obtain ⟨hhour, heq⟩ := takes_unique_before (by decide) h.hour h'.hour heq
  obtain ⟨hminute, heq⟩ := takes_unique_before (by decide) h.minute h'.minute heq
  obtain ⟨hsecond, heq⟩ := takes_unique (h.second.of_rest htail) (h'.second.of_rest htail') heq
  obtain ⟨hfraction, hzone⟩ := tail_unique h h' heq
  cases p
  cases q
  simp_all

/-- Plain pieces are read as they are meant. -/
theorem reads_of_plain (hplain : p.IsPlain) (hcalendar : InCalendar p.fields)
    (hzone : PlainZone p.zone minutes) : p.Reads p.fields minutes :=
  { year := takes_of_plain hplain.year (by decide)
    month := takes_of_plain hplain.month (by decide)
    day := takes_of_plain hplain.day (by decide)
    hour := takes_of_plain hplain.hour (by decide)
    minute := takes_of_plain hplain.minute (by decide)
    second := takes_of_plain hplain.second (by decide)
    length := by
      simp [Stamp.headBefore, hplain.year.length, hplain.month.length, hplain.day.length,
        hplain.hour.length, hplain.minute.length, hplain.second.length]
    calendar := hcalendar
    fraction := fun digits hdigits => (hplain.fraction digits hdigits).2
    zone := hzone.loose }

theorem fields_of_plain (hplain : p.IsPlain) (h : p.Reads f minutes) : f = p.fields := by
  cases f
  simp only [Stamp.fields, Fields.mk.injEq]
  exact ⟨value_of_plain hplain.year h.year (by decide), value_of_plain hplain.month h.month (by decide),
    value_of_plain hplain.day h.day (by decide), value_of_plain hplain.hour h.hour (by decide),
    value_of_plain hplain.minute h.minute (by decide), value_of_plain hplain.second h.second (by decide)⟩

theorem zone_of_plain (hplain : p.IsPlain) (h : p.Reads f minutes) : PlainZone p.zone minutes := by
  obtain ⟨minutes', hzone⟩ := hplain.zone
  rwa [h.zone.unique hzone.loose]

theorem written_iff : Written text t ↔ ∃ (p : Stamp) (f : Fields) (minutes : Int),
    p.text = text ∧ p.IsPlain ∧ p.Reads f minutes ∧ t = timegm f - minutes * 60 := by
  constructor
  · rintro ⟨p, minutes, htext, hplain, hcalendar, hzone, ht⟩
    exact ⟨p, p.fields, minutes, htext, hplain, reads_of_plain hplain hcalendar hzone, ht⟩
  · rintro ⟨p, f, minutes, htext, hplain, hreads, ht⟩
    obtain rfl := fields_of_plain hplain hreads
    exact ⟨p, minutes, htext, hplain, hreads.calendar, zone_of_plain hplain hreads, ht⟩

theorem parseIso8601_of_written (h : Written text t) : parseIso8601 text = .ok t := by
  obtain ⟨p, f, minutes, htext, -, hreads, ht⟩ := written_iff.mp h
  exact parseIso8601_iff.mpr ⟨p, f, minutes, htext, hreads, ht⟩

/-- A text that can be read is no timestamp if its pieces are not plain. -/
theorem not_written_of_reads (hreads : p.Reads f minutes) (hnot : ¬p.IsPlain) : ¬Written p.text t := by
  intro hwritten
  obtain ⟨q, g, minutes', htext, hplain, hreads', -⟩ := written_iff.mp hwritten
  rw [reads_unique hreads hreads' htext.symm] at hnot
  exact hnot hplain

end Heads

/-- The reader accepts a text exactly as a timestamp, and gives its instant, unless the text is
loosely written. -/
theorem accepts_timestamps_iff (text : Bytes) :
    (∀ t, parseIso8601 text = .ok t ↔ Written text t) ↔ ¬Loose text := by
  constructor
  · rintro h ⟨p, f, minutes, htext, hreads, hnot⟩
    have hparsed := (h _).mp (parseIso8601_iff.mpr ⟨p, f, minutes, htext, hreads, rfl⟩)
    exact not_written_of_reads hreads hnot (htext.symm ▸ hparsed)
  · intro hloose t
    refine ⟨fun h => ?_, parseIso8601_of_written⟩
    obtain ⟨p, f, minutes, htext, hreads, ht⟩ := parseIso8601_iff.mp h
    by_cases hplain : p.IsPlain
    · exact written_iff.mpr ⟨p, f, minutes, htext, hplain, hreads, ht⟩
    · exact absurd ⟨p, f, minutes, htext, hreads, hplain⟩ hloose

/-- A midnight with a letter behind its `Z`. -/
def trailed : Stamp where
  year := octets "2020"
  month := octets "01"
  day := octets "01"
  hour := octets "00"
  minute := octets "00"
  second := octets "00"
  fraction := none
  zone := octets "Zx"

theorem trailing_text_accepted : parseIso8601 (octets "2020-01-01T00:00:00Zx") = .ok 1577836800 ∧
    ∀ t, ¬Written (octets "2020-01-01T00:00:00Zx") t := by
  refine ⟨by decide +kernel, fun t => ?_⟩
  have hdigits : ∀ {width : Nat} {field : Bytes}, field.length = width →
      field.all isDigitOctet = true → Plain width field := fun hlength hall =>
    ⟨hlength, List.all_eq_true.mp hall⟩
  have hreads : trailed.Reads trailed.fields 0 :=
    { year := takes_of_plain (hdigits rfl rfl) (by decide)
      month := takes_of_plain (hdigits rfl rfl) (by decide)
      day := takes_of_plain (hdigits rfl rfl) (by decide)
      hour := takes_of_plain (hdigits rfl rfl) (by decide)
      minute := takes_of_plain (hdigits rfl rfl) (by decide)
      second := takes_of_plain (hdigits rfl rfl) (by decide)
      length := rfl
      calendar := ⟨⟨by decide, by decide⟩, by decide, by decide, by decide⟩
      fraction := by simp [trailed]
      zone := .utc [120] }
  have hnot : ¬trailed.IsPlain := by
    rintro ⟨-, -, -, -, -, -, -, minutes, hzone⟩
    have htext : trailed.zone = [90, 120] := by decide
    rw [htext] at hzone
    generalize hz : ([90, 120] : Bytes) = zone at hzone
    cases hzone with
    | none => cases hz
    | utc => cases hz
    | offset hsign =>
      rw [← (List.cons.inj hz).1] at hsign
      exact absurd hsign (by decide)
  exact not_written_of_reads hreads hnot

end FileService.Time
