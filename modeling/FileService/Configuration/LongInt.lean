import FileService.Common.Decimal
import FileService.Http.Dispatch

/-!
# Texts that are read as a `long`

`strtol` passes over blanks, takes a sign and digits, and saturates the number
at the ends of its type. The text it sees ends at the first NUL. A text denotes
a number if it is blanks, a sign and digits as a whole.
-/
namespace FileService.Configuration
open FileService.Common
open FileService.Http (strtoll saturate isSpace isDigit digitsValue int64Min int64Max)

/-- The text that `c_str()` shows. -/
def cString (text : String) : List Char := text.toList.takeWhile (· ≠ '\x00')

/-- The number that `strtol` makes of the text, if it is read up to its end. -/
def parseLong (text : String) : Option Int :=
  match strtoll (cString text) with
  | (n, []) => if cString text = [] then none else some n
  | _ => none

/-! ## The number that a text denotes -/

def signed : List Char → Bool × List Char
  | '-' :: digits => (true, digits)
  | '+' :: digits => (false, digits)
  | digits => (false, digits)

def signedValue (negative : Bool) (digits : List Char) : Int :=
  if negative then -(digitsValue digits : Int) else digitsValue digits

def numeral (text : List Char) : Option Int :=
  let (negative, digits) := signed (text.dropWhile isSpace)
  if digits = [] ∨ digits.all isDigit = false then none
  else some (signedValue negative digits)

def denoted (text : String) : Option Int := numeral text.toList

def FitsLong (n : Int) : Prop := int64Min ≤ n ∧ n ≤ int64Max

instance (n : Int) : Decidable (FitsLong n) := inferInstanceAs (Decidable (_ ∧ _))

section Numbers
variable {s digits : List Char} {text : String} {n m : Int}

theorem saturate_of_fits (h : FitsLong n) : saturate n = n := by
  unfold saturate
  rw [min_eq_left h.2, max_eq_right h.1]

theorem fits_saturate : FitsLong (saturate n) := by
  unfold FitsLong saturate int64Min int64Max
  omega

theorem strtoll_eq : strtoll s =
    (let (negative, digits) := signed (s.dropWhile isSpace)
     if digits.takeWhile isDigit = [] then (0, s)
     else (saturate (signedValue negative (digits.takeWhile isDigit)), digits.dropWhile isDigit)) := by
  rfl

theorem strtoll_of_numeral (h : numeral s = some m) : strtoll s = (saturate m, []) := by
  unfold numeral at h
  rw [strtoll_eq]
  generalize signed (s.dropWhile isSpace) = parts at h ⊢
  obtain ⟨negative, digits⟩ := parts
  dsimp only at h ⊢
  split_ifs at h with hbad
  rw [not_or, Bool.not_eq_false, List.all_eq_true] at hbad
  have hall : digits.takeWhile isDigit = digits := List.takeWhile_eq_self_iff.mpr hbad.2
  have hrest : digits.dropWhile isDigit = [] := List.dropWhile_eq_nil_iff.mpr hbad.2
  rw [hall, hrest, if_neg hbad.1, ← Option.some.inj h]

theorem numeral_of_strtoll (h : strtoll s = (n, [])) (hs : s ≠ []) :
    ∃ m, numeral s = some m ∧ n = saturate m := by
  unfold numeral
  rw [strtoll_eq] at h
  generalize signed (s.dropWhile isSpace) = parts at h ⊢
  obtain ⟨negative, digits⟩ := parts
  dsimp only at h ⊢
  split_ifs at h with hnone
  · exact absurd (congrArg Prod.snd h) hs
  · have hdigit : ∀ c ∈ digits, isDigit c = true :=
      List.dropWhile_eq_nil_iff.mp (congrArg Prod.snd h)
    have hall : digits.takeWhile isDigit = digits := List.takeWhile_eq_self_iff.mpr hdigit
    rw [hall] at h hnone
    rw [if_neg (by simp [hnone, List.all_eq_true.mpr hdigit])]
    exact ⟨_, rfl, (congrArg Prod.fst h).symm⟩

/-- A character that is no blank, no sign and no digit. -/
theorem notMem_of_numeral {c : Char} (h : numeral s = some m) (hspace : isSpace c = false)
    (hsign : c ≠ '-' ∧ c ≠ '+') (hdigit : isDigit c = false) : c ∉ s := by
  have hsigned : ∀ body, c ∈ body → c ∈ (signed body).2 := by
    intro body hc
    unfold signed
    split
    · exact (List.mem_cons.mp hc).resolve_left hsign.1
    · exact (List.mem_cons.mp hc).resolve_left hsign.2
    · exact hc
  intro hc
  have hbody : c ∈ s.dropWhile isSpace := by
    rw [← List.takeWhile_append_dropWhile (p := isSpace) (l := s), List.mem_append] at hc
    refine hc.resolve_left fun hblank => ?_
    rw [List.mem_takeWhile_imp hblank] at hspace
    cases hspace
  unfold numeral at h
  dsimp only at h
  split_ifs at h with hbad
  rw [not_or, Bool.not_eq_false, List.all_eq_true] at hbad
  rw [hbad.2 c (hsigned _ hbody)] at hdigit
  cases hdigit

theorem cString_eq (h : '\x00' ∉ text.toList) : cString text = text.toList :=
  List.takeWhile_eq_self_iff.mpr fun _ hc => decide_eq_true fun heq => h (heq ▸ hc)

theorem numeral_nil : numeral [] = none := rfl

/-- A text that denotes a number is read as it, as far as the type goes. -/
theorem parseLong_of_denoted (h : denoted text = some m) : parseLong text = some (saturate m) := by
  have hnul : '\x00' ∉ text.toList := notMem_of_numeral h rfl (by decide) rfl
  have hsome : text.toList ≠ [] := by
    intro hnil
    rw [denoted, hnil, numeral_nil] at h
    cases h
  rw [parseLong, cString_eq hnul, strtoll_of_numeral h]
  exact if_neg hsome

theorem denoted_of_parseLong (h : parseLong text = some n) (hnul : '\x00' ∉ text.toList) :
    ∃ m, denoted text = some m ∧ n = saturate m := by
  unfold parseLong at h
  rw [cString_eq hnul] at h
  rcases hread : strtoll text.toList with ⟨v, rest⟩
  rw [hread] at h
  cases rest with
  | nil =>
    dsimp only at h
    split_ifs at h with hnil
    obtain rfl := Option.some.inj h
    exact numeral_of_strtoll hread hnil
  | cons c rest => cases h

/-- The read number is the denoted one exactly when that one fits. -/
theorem denoted_eq_iff (h : parseLong text = some n) :
    denoted text = some n ↔ ∃ m, denoted text = some m ∧ FitsLong m := by
  constructor
  · intro hn
    rw [parseLong_of_denoted hn] at h
    exact ⟨n, hn, Option.some.inj h ▸ fits_saturate⟩
  · rintro ⟨m, hm, hfits⟩
    rw [parseLong_of_denoted hm, saturate_of_fits hfits] at h
    rw [hm, h]

end Numbers

/-! ## The text of a number -/

section Spelling
variable {n : Int}

theorem digitsValue_eq {digits : List Char} : digitsValue digits = Decimal.value digits := by
  rw [digitsValue, Decimal.value, Nat.ofDigitChars_eq_foldl]
  congr 1
  funext v c
  rw [Nat.mul_comm]

theorem signed_toDigits {n : Nat} : signed (Nat.toDigits 10 n) = (false, Nat.toDigits 10 n) := by
  obtain ⟨c, rest, hdigits⟩ := List.exists_cons_of_ne_nil (Nat.toDigits_ne_nil (b := 10) (n := n))
  have hc : c.isDigit = true := Decimal.isDigit_of_mem (n := n) (hdigits ▸ List.mem_cons_self)
  rw [hdigits]
  unfold signed
  split
  · rename_i heq
    rw [(List.cons.inj heq).1] at hc
    cases hc
  · rename_i heq
    rw [(List.cons.inj heq).1] at hc
    cases hc
  · rfl

theorem not_isSpace_of_isDigit {c : Char} (h : c.isDigit = true) : isSpace c = false := by
  obtain ⟨hlow, hhigh⟩ := Char.isDigit_iff_toNat.mp h
  change 48 ≤ c.toNat at hlow
  have hne : c ≠ ' ' := by
    rintro rfl
    exact absurd hlow (by decide)
  simp only [isSpace, beq_eq_false_iff_ne.mpr hne, Bool.false_or, Bool.and_eq_false_iff,
    decide_eq_false_iff_not]
  omega

theorem dropWhile_toDigits {n : Nat} : (Nat.toDigits 10 n).dropWhile isSpace = Nat.toDigits 10 n := by
  obtain ⟨c, rest, hdigits⟩ := List.exists_cons_of_ne_nil (Nat.toDigits_ne_nil (b := 10) (n := n))
  have hc : c.isDigit = true := Decimal.isDigit_of_mem (n := n) (hdigits ▸ List.mem_cons_self)
  rw [hdigits, List.dropWhile_cons_of_neg (by simp [not_isSpace_of_isDigit hc])]

theorem all_isDigit_toDigits {n : Nat} : (Nat.toDigits 10 n).all isDigit = true := by
  rw [List.all_eq_true]
  intro c hc
  simpa [isDigit, Char.isDigit, Char.le_def] using Decimal.isDigit_of_mem hc

theorem denoted_toString : denoted (toString n) = some n := by
  cases n with
  | ofNat n =>
    have htext : (toString (Int.ofNat n)).toList = Nat.toDigits 10 n := Nat.toList_repr
    rw [denoted, htext, numeral, dropWhile_toDigits, signed_toDigits]
    simp [Nat.toDigits_ne_nil, all_isDigit_toDigits, signedValue, digitsValue_eq, Decimal.value,
      Nat.ofDigitChars_ten_toDigits]
  | negSucc n =>
    have htext : (toString (Int.negSucc n)).toList = '-' :: Nat.toDigits 10 (n + 1) := by
      change ("-" ++ Nat.repr (n + 1)).toList = _
      rw [String.toList_append, Nat.toList_repr]
      rfl
    rw [denoted, htext, numeral, List.dropWhile_cons_of_neg (by decide)]
    simp [signed, Nat.toDigits_ne_nil, all_isDigit_toDigits, signedValue, digitsValue_eq,
      Decimal.value, Nat.ofDigitChars_ten_toDigits, Int.negSucc_eq]

theorem parseLong_toString (h : FitsLong n) : parseLong (toString n) = some n := by
  rw [parseLong_of_denoted denoted_toString, saturate_of_fits h]

end Spelling

end FileService.Configuration
