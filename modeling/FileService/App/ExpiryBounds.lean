import FileService.App.ObjectKeyPolicy

/-!
# Expiry times

A text names a number of minutes, hours or days. The number is read exactly, as
its digits are few enough, but its product with the unit is one of 64-bit
integers, and a product that does not fit is not capped but wrapped.
-/
namespace FileService.App
open FileService.Common

/-! ## The language -/

/-- The seconds of a unit. -/
def unitSeconds : Char → Option Nat
  | 'M' => some 60
  | 'H' => some 3600
  | 'D' => some 86400
  | _ => none

def digitsNumber (digits : List Char) : Nat :=
  digits.foldl (fun n c => 10 * n + (c.toNat - '0'.toNat)) 0

/-- The text is a number of at most 18 digits, and a unit of so many seconds. -/
def IsExpiry (text : String) (number seconds : Nat) : Prop :=
  ∃ digits unit, text.toList = digits ++ [unit] ∧ digits ≠ [] ∧ digits.length ≤ 18 ∧
    (∀ c ∈ digits, c.isDigit = true) ∧ digitsNumber digits = number ∧
    unitSeconds unit = some seconds

section Reading
variable {options : ExpiryOptions} {text : String} {digits : List Char} {number seconds : Nat}

theorem foldl_eq_digitsNumber (digits : List Char) (n : Nat) :
    digits.foldl (fun (value : Int) c => value * 10 + (c.toNat - '0'.toNat : Nat)) n =
      (digits.foldl (fun n c => 10 * n + (c.toNat - '0'.toNat)) n : Nat) := by
  induction digits generalizing n with
  | nil => rfl
  | cons c digits ih =>
    rw [List.foldl_cons, List.foldl_cons, ← ih]
    congr 1
    push_cast
    omega

theorem parseDigits_eq_some {value : Int} : parseDigits digits = some value ↔
    digits ≠ [] ∧ digits.length ≤ 18 ∧ (∀ c ∈ digits, c.isDigit = true) ∧
      value = digitsNumber digits := by
  have hvalue := foldl_eq_digitsNumber digits 0
  unfold parseDigits
  split_ifs with hbad
  · simp only [false_iff]
    rintro ⟨hne, hlength, hdigits, -⟩
    simp only [Bool.or_eq_true, List.isEmpty_iff, decide_eq_true_eq, Bool.not_eq_true',
      List.all_eq_false] at hbad
    rcases hbad with (hempty | hlong) | ⟨c, hc, hno⟩
    · exact hne hempty
    · omega
    · exact hno (hdigits c hc)
  · simp only [Bool.or_eq_true, List.isEmpty_iff, decide_eq_true_eq, Bool.not_eq_true',
      List.all_eq_false, not_or, not_exists, not_and, not_not] at hbad
    obtain ⟨⟨hne, hlength⟩, hdigits⟩ := hbad
    rw [Option.some.injEq]
    constructor
    · rintro rfl
      exact ⟨hne, by omega, hdigits, hvalue⟩
    · rintro ⟨-, -, -, rfl⟩
      exact hvalue

/-- What is made of a number and a unit. -/
theorem parseExpiry_of_isExpiry (h : IsExpiry text number seconds) :
    parseExpiry (some text) options =
      .ok (capWith (wrap64 ((number : Int) * seconds)) options) := by
  obtain ⟨digits, unit, htext, hne, hlength, hdigits, hnumber, hunit⟩ := h
  have hparsed : parseDigits digits = some (number : Int) :=
    parseDigits_eq_some.mpr ⟨hne, hlength, hdigits, by rw [hnumber]⟩
  simp only [parseExpiry, htext, List.getLast?_append, List.getLast?_singleton, Option.some_or,
    List.dropLast_concat, hparsed]
  unfold unitSeconds at hunit
  split at hunit
  all_goals cases hunit
  · rfl
  · rfl
  · rfl

theorem isExpiry_of_parseExpiry (hne : text ≠ "")
    (h : (parseExpiry (some text) options).isOk = true) :
    ∃ number seconds, IsExpiry text number seconds := by
  obtain ⟨digits, unit, htext⟩ : ∃ digits unit, text.toList = digits ++ [unit] := by
    have hlist : text.toList ≠ [] := fun hempty => hne (String.toList_eq_nil_iff.mp hempty)
    exact ⟨_, _, (List.dropLast_append_getLast hlist).symm⟩
  simp only [parseExpiry, htext, List.getLast?_append, List.getLast?_singleton, Option.some_or,
    List.dropLast_concat] at h
  cases hparsed : parseDigits digits with
  | none =>
    rw [hparsed] at h
    cases h
  | some value =>
    obtain ⟨hdne, hlength, hdigits, -⟩ := parseDigits_eq_some.mp hparsed
    simp only [hparsed] at h
    have hunit : ∃ seconds, unitSeconds unit = some seconds := by
      split_ifs at h with hM hH hD
      · exact ⟨60, by rw [hM]; rfl⟩
      · exact ⟨3600, by rw [hH]; rfl⟩
      · exact ⟨86400, by rw [hD]; rfl⟩
      · cases h
    obtain ⟨seconds, hseconds⟩ := hunit
    exact ⟨_, seconds, digits, unit, htext, hdne, hlength, hdigits, rfl, hseconds⟩

end Reading

/-! ## Products -/

section Products
variable {options : ExpiryOptions}

/-- The product fits, or what it is wrapped to is capped as it is. -/
def Capped (options : ExpiryOptions) (product : Int) : Prop :=
  product < 2 ^ 63 ∨ options.maxSeconds = 0 ∨ options.maxSeconds ≤ wrap64 product

theorem wrap64_of_lt {n : Int} (hnonneg : 0 ≤ n) (hlt : n < 2 ^ 63) : wrap64 n = n :=
  Int.bmod_eq_of_le (by omega) (by omega)

theorem capWith_wrap64 {product : Int} (hproduct : 0 ≤ product) (hmax : 0 ≤ options.maxSeconds)
    (hfits : options.maxSeconds < 2 ^ 63) :
    capWith (wrap64 product) options = min product options.maxSeconds ↔ Capped options product := by
  by_cases hlt : product < 2 ^ 63
  · have hnonneg : ¬product < 0 := by omega
    rw [wrap64_of_lt hproduct hlt, capWith, if_neg hnonneg]
    exact iff_of_true rfl (.inl hlt)
  · have hmin : min product options.maxSeconds = options.maxSeconds := by omega
    rw [hmin, capWith, Capped]
    split_ifs <;> omega

/-- The texts that name an expiry time, or leave it to the default. -/
def NamesExpiry (raw : Option String) : Prop :=
  raw = none ∨ raw = some "" ∨ ∃ text number seconds, raw = some text ∧ IsExpiry text number seconds

theorem isOk_parseExpiry (raw : Option String) :
    (parseExpiry raw options).isOk = true ↔ NamesExpiry raw := by
  constructor
  · intro h
    cases raw with
    | none => exact .inl rfl
    | some text =>
      by_cases hempty : text = ""
      · exact .inr (.inl (by rw [hempty]))
      · obtain ⟨number, seconds, hexpiry⟩ := isExpiry_of_parseExpiry hempty h
        exact .inr (.inr ⟨text, number, seconds, rfl, hexpiry⟩)
  · rintro (rfl | rfl | ⟨text, number, seconds, rfl, hexpiry⟩)
    · rfl
    · rfl
    · rw [parseExpiry_of_isExpiry hexpiry]
      rfl

/-- The accepted texts are the language, and a text that is accepted yields the smaller one of
what it names and the maximum, exactly if its product is capped rightly. -/
theorem expiry_exact (raw : Option String) (hmax : 0 ≤ options.maxSeconds)
    (hfits : options.maxSeconds < 2 ^ 63) :
    (((parseExpiry raw options).isOk = true ↔ NamesExpiry raw) ∧
      ∀ text number seconds, raw = some text → IsExpiry text number seconds →
        parseExpiry raw options = .ok (min ((number : Int) * seconds) options.maxSeconds)) ↔
    ∀ text number seconds, raw = some text → IsExpiry text number seconds →
      Capped options ((number : Int) * seconds) := by
  have hresult : ∀ {text number seconds}, raw = some text → IsExpiry text number seconds →
      (parseExpiry raw options = .ok (min ((number : Int) * seconds) options.maxSeconds) ↔
        Capped options ((number : Int) * seconds)) := by
    rintro text number seconds rfl hexpiry
    rw [parseExpiry_of_isExpiry hexpiry, Except.ok.injEq]
    exact capWith_wrap64 (by positivity) hmax hfits
  constructor
  · rintro ⟨-, hexact⟩ text number seconds hraw hexpiry
    exact (hresult hraw hexpiry).mp (hexact text number seconds hraw hexpiry)
  · intro hcapped
    refine ⟨isOk_parseExpiry raw, fun text number seconds hraw hexpiry => ?_⟩
    exact (hresult hraw hexpiry).mpr (hcapped text number seconds hraw hexpiry)

end Products

/-- Five minutes, with the options of the service. -/
theorem five_minutes_exact : parseExpiry (some "5M") {} = .ok 300 := by
  have hfive : IsExpiry "5M" 5 60 :=
    ⟨['5'], 'M', by decide, by decide, by decide, List.all_eq_true.mp (by decide), by decide,
      by decide⟩
  have hcapped : ∀ text number seconds, some "5M" = some text → IsExpiry text number seconds →
      Capped {} ((number : Int) * seconds) := by
    rintro text number seconds htext ⟨digits, unit, hlist, -, -, -, hnumber, hunit⟩
    obtain rfl := Option.some.inj htext
    have hparts : digits ++ [unit] = ['5'] ++ ['M'] := hlist.symm.trans (by decide)
    obtain ⟨rfl, hlast⟩ := List.append_inj' hparts rfl
    obtain rfl := (List.cons.inj hlast).1
    obtain rfl := Option.some.inj hunit
    rw [← hnumber]
    exact .inl (by decide)
  exact ((expiry_exact (some "5M") (by decide) (by decide)).mpr hcapped).2 _ _ _ rfl hfive

/-- More days than any validity is no validity at all, while a minute is one. -/
theorem days_wrap_to_zero :
    IsExpiry "999999999999999999D" 999999999999999999 86400 ∧ IsExpiry "1M" 1 60 ∧
      min ((999999999999999999 : Int) * 86400) (7 * 86400) = 604800 ∧
      parseExpiry (some "999999999999999999D") {} = .ok 0 ∧ parseExpiry (some "1M") {} = .ok 60 := by
  refine ⟨⟨"999999999999999999".toList, 'D', ?_, ?_, ?_, List.all_eq_true.mp ?_, ?_⟩,
    ⟨['1'], 'M', ?_, ?_, ?_, List.all_eq_true.mp ?_, ?_⟩, ?_, ?_, ?_⟩
  all_goals decide +kernel

end FileService.App
