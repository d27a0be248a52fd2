import Mathlib.Tactic

/-! # Numbers as decimal texts -/
namespace FileService.Common.Decimal

/-- The characters of a numeral are digits. -/
theorem isDigit_of_mem {n : Nat} {c : Char} (h : c ∈ Nat.toDigits 10 n) : c.isDigit = true :=
  Nat.isDigit_of_mem_toDigits (by decide) (by decide) h

theorem notMem_toDigits {n : Nat} {c : Char} (hc : c.isDigit = false) : c ∉ Nat.toDigits 10 n :=
  fun hmem => Bool.false_ne_true (hc.symm.trans (isDigit_of_mem hmem))

theorem repr_injective : Function.Injective Nat.repr := by
  intro m n h
  have hdigits : Nat.toDigits 10 m = Nat.toDigits 10 n := by
    rw [← Nat.toList_repr, ← Nat.toList_repr, h]
  calc
    m = Nat.ofDigitChars 10 (Nat.toDigits 10 m) 0 := Nat.ofDigitChars_ten_toDigits.symm
    _ = Nat.ofDigitChars 10 (Nat.toDigits 10 n) 0 := by rw [hdigits]
    _ = n := Nat.ofDigitChars_ten_toDigits

/-- Only negative numbers have a sign. -/
theorem repr_ne_minus (m n : Nat) : Nat.repr m ≠ "-" ++ Nat.repr n := by
  intro h
  have hmem : '-' ∈ Nat.toDigits 10 m := by
    rw [← Nat.toList_repr, h]
    simp
  exact notMem_toDigits (by decide) hmem

theorem toString_injective : Function.Injective (toString : Int → String) := by
  intro m n h
  cases m with
  | ofNat m =>
    cases n with
    | ofNat n => exact congrArg Int.ofNat (repr_injective h)
    | negSucc n => exact absurd h (repr_ne_minus m (n + 1))
  | negSucc m =>
    cases n with
    | ofNat n => exact absurd h.symm (repr_ne_minus n (m + 1))
    | negSucc n =>
      have hsucc : Nat.repr (m + 1) = Nat.repr (n + 1) := (String.append_right_inj "-").mp h
      rw [Nat.succ.inj (repr_injective hsucc)]

/-! ## Texts of digits -/

/-- The number that a text of decimal digits denotes. -/
def value (digits : List Char) : Nat := Nat.ofDigitChars 10 digits 0

variable {digits : List Char}

theorem value_append_singleton (digits : List Char) (c : Char) :
    value (digits ++ [c]) = 10 * value digits + (c.toNat - '0'.toNat) := by
  simp [value, Nat.ofDigitChars_append, Nat.ofDigitChars_cons]

theorem digit_eq {c : Char} (h : c.isDigit = true) :
    c.toNat - '0'.toNat < 10 ∧ Nat.digitChar (c.toNat - '0'.toNat) = c := by
  obtain ⟨hlow, hhigh⟩ := Char.isDigit_iff_toNat.mp h
  change 48 ≤ c.toNat at hlow
  change c.toNat ≤ 57 at hhigh
  change c.toNat - 48 < 10 ∧ Nat.digitChar (c.toNat - 48) = c
  rw [← Char.ofNat_toNat c]
  generalize c.toNat = n at hlow hhigh
  interval_cases n <;> decide

/-- A text of digits that does not start with a zero is the numeral of its value. -/
theorem toDigits_value (hdigits : ∀ c ∈ digits, c.isDigit = true) (hsome : digits ≠ [])
    (hhead : digits.head? ≠ some '0') :
    0 < value digits ∧ Nat.toDigits 10 (value digits) = digits := by
  induction digits using List.reverseRecOn with
  | nil => exact absurd rfl hsome
  | append_singleton digits c ih =>
    obtain ⟨hlt, hchar⟩ := digit_eq (hdigits c (by simp))
    rw [value_append_singleton]
    by_cases hnil : digits = []
    · subst hnil
      have hpos : c.toNat - '0'.toNat ≠ 0 := by
        intro hzero
        rw [hzero] at hchar
        exact hhead (by rw [← hchar]; rfl)
      have hvalue : 10 * value [] + (c.toNat - '0'.toNat) = c.toNat - '0'.toNat := by
        simp [value]
      rw [hvalue, Nat.toDigits_of_lt_base hlt, hchar]
      exact ⟨Nat.pos_of_ne_zero hpos, rfl⟩
    · obtain ⟨hpos, hsame⟩ := ih (fun d hd => hdigits d (by simp [hd])) hnil (by
        rwa [List.head?_append_of_ne_nil _ hnil] at hhead)
      rw [← Nat.toDigits_append_toDigits (by decide) hpos hlt, hsame,
        Nat.toDigits_of_lt_base hlt, hchar]
      exact ⟨by omega, rfl⟩

/-- The numeral of a positive number does not start with a zero. -/
theorem head?_toDigits {n : Nat} (hn : 0 < n) : (Nat.toDigits 10 n).head? ≠ some '0' := by
  induction n using Nat.strong_induction_on with
  | _ n ih =>
    by_cases hsmall : n < 10
    · rw [Nat.toDigits_of_lt_base hsmall, List.head?_cons, ne_eq, Option.some_inj,
        Nat.digitChar_eq_zero]
      omega
    · rw [Nat.toDigits_of_base_le (by decide) (by omega),
        List.head?_append_of_ne_nil _ Nat.toDigits_ne_nil]
      exact ih (n / 10) (by omega) (by omega)

/-- The texts that are numerals of positive numbers. -/
theorem toDigits_value_iff (hdigits : ∀ c ∈ digits, c.isDigit = true) (hsome : digits ≠ []) {n : Nat}
    (hn : 0 < n) : Nat.toDigits 10 n = digits ↔ value digits = n ∧ digits.head? ≠ some '0' := by
  constructor
  · rintro rfl
    exact ⟨Nat.ofDigitChars_ten_toDigits, head?_toDigits hn⟩
  · rintro ⟨rfl, hhead⟩
    exact (toDigits_value hdigits hsome hhead).2

end FileService.Common.Decimal
