import FileService.Common.Crypto

/-!
# Percent encoding

Octets outside a kept set are written as a percent sign and two hexadecimal
digits. The reader undoes this and leaves anything that is no escape as it is,
so it changes a text exactly if there is an escape in it.
-/
namespace FileService.Common.Percent
open FileService.Domain (Bytes)
open FileService.Common.Crypto (octets)

/-! ## Writing -/

def hexUpper (n : Nat) : UInt8 := (octets "0123456789ABCDEF").getD n 0

def encodeOctet (keep : UInt8 → Bool) (c : UInt8) : Bytes :=
  if keep c then [c] else [37, hexUpper (c.toNat / 16), hexUpper (c.toNat % 16)]

def encode (keep : UInt8 → Bool) (text : Bytes) : Bytes := text.flatMap (encodeOctet keep)

/-! ## Reading -/

def hexDigit? (c : UInt8) : Option Nat :=
  if 48 ≤ c.toNat ∧ c.toNat ≤ 57 then some (c.toNat - 48)
  else if 65 ≤ c.toNat ∧ c.toNat ≤ 70 then some (c.toNat - 55)
  else if 97 ≤ c.toNat ∧ c.toNat ≤ 102 then some (c.toNat - 87)
  else none

/-- The octet that two hexadecimal digits stand for. -/
def escaped? (a b : UInt8) : Option UInt8 :=
  match hexDigit? a, hexDigit? b with
  | some high, some low => some (UInt8.ofNat (16 * high + low))
  | _, _ => none

def decode : Bytes → Bytes
  | [] => []
  | [c] => [c]
  | [c, a] => [c, a]
  | c :: a :: b :: rest =>
    if c = 37 then
      match escaped? a b with
      | some octet => octet :: decode rest
      | none => c :: decode (a :: b :: rest)
    else c :: decode (a :: b :: rest)

def hasEscape : Bytes → Bool
  | c :: a :: b :: rest => (c = 37 && (escaped? a b).isSome) || hasEscape (a :: b :: rest)
  | _ => false

section Decode
variable {text : Bytes} {c : UInt8} {keep : UInt8 → Bool}

theorem decode_cons_of_ne (h : c ≠ 37) : decode (c :: text) = c :: decode text := by
  match text with
  | [] => rfl
  | [_] => rfl
  | _ :: _ :: _ => rw [decode, if_neg h]

theorem length_decode_le (text : Bytes) : (decode text).length ≤ text.length := by
  induction text using decode.induct with
  | case1 => simp [decode]
  | case2 c => simp [decode]
  | case3 c a => simp [decode]
  | case4 a b rest octet hoctet ih =>
    simp only [decode, if_true, hoctet, List.length_cons]
    omega
  | case5 a b rest hnone ih =>
    simp only [decode, if_true, hnone, List.length_cons] at ih ⊢
    omega
  | case6 c a b rest hne ih =>
    simp only [decode, if_neg hne, List.length_cons] at ih ⊢
    omega

/-- Every escape makes a text shorter. -/
theorem hasEscape_of_length (text : Bytes) (h : text.length ≤ (decode text).length) :
    hasEscape text = false := by
  induction text using decode.induct with
  | case1 => rfl
  | case2 c => rfl
  | case3 c a => rfl
  | case4 a b rest octet hoctet ih =>
    have := length_decode_le rest
    simp only [decode, if_true, hoctet, List.length_cons] at h
    omega
  | case5 a b rest hnone ih =>
    simp only [decode, if_true, hnone, List.length_cons] at h ih
    simp only [hasEscape, hnone, Option.isSome_none, decide_true, Bool.and_false, Bool.false_or]
    exact ih (by omega)
  | case6 c a b rest hne ih =>
    simp only [decode, if_neg hne, List.length_cons] at h ih
    simp only [hasEscape, hne, decide_false, Bool.false_and, Bool.false_or]
    exact ih (by omega)

theorem decode_of_not_hasEscape (text : Bytes) (h : hasEscape text = false) : decode text = text := by
  induction text using decode.induct with
  | case1 => rfl
  | case2 c => rfl
  | case3 c a => rfl
  | case4 a b rest octet hoctet ih => simp [hasEscape, hoctet] at h
  | case5 a b rest hnone ih =>
    simp only [hasEscape, Bool.or_eq_false_iff] at h
    simp only [decode, if_true, hnone, ih h.2]
  | case6 c a b rest hne ih =>
    simp only [hasEscape, Bool.or_eq_false_iff] at h
    rw [decode, if_neg hne, ih h.2]

/-- A text without escapes is left as it is; otherwise it gets shorter. -/
theorem decode_eq_iff (text : Bytes) : decode text = text ↔ hasEscape text = false := by
  constructor
  · intro h
    exact hasEscape_of_length text (by rw [h])
  · exact decode_of_not_hasEscape text

theorem escaped_hexUpper (c : UInt8) :
    escaped? (hexUpper (c.toNat / 16)) (hexUpper (c.toNat % 16)) = some c := by
  have hall : ∀ n < 256,
      escaped? (hexUpper (n / 16)) (hexUpper (n % 16)) = some (UInt8.ofNat n) := by decide +kernel
  rw [hall c.toNat c.toNat_lt, UInt8.ofNat_toNat]

/-- What was encoded is read back, if the percent sign itself is not kept. -/
theorem decode_encode (hkeep : keep 37 = false) (text : Bytes) : decode (encode keep text) = text := by
  induction text with
  | nil => rfl
  | cons c text ih =>
    rw [encode, List.flatMap_cons, encodeOctet]
    split_ifs with hc
    · have hne : c ≠ 37 := by
        rintro rfl
        rw [hkeep] at hc
        cases hc
      rw [List.singleton_append, decode_cons_of_ne hne]
      exact congrArg (c :: ·) ih
    · simp only [List.cons_append, List.nil_append, decode, if_true, escaped_hexUpper]
      exact congrArg (c :: ·) ih

theorem encode_injective (hkeep : keep 37 = false) : Function.Injective (encode keep) :=
  Function.LeftInverse.injective (decode_encode hkeep)

/-- An encoding consists of kept octets, percent signs and hexadecimal digits. -/
theorem notMem_encode {d : UInt8} (hd : keep d = false) (hpercent : d ≠ 37)
    (hhex : ∀ n < 16, hexUpper n ≠ d) (text : Bytes) : d ∉ encode keep text := by
  intro h
  obtain ⟨c, -, hc⟩ := List.mem_flatMap.mp h
  have hlt : c.toNat < 256 := c.toNat_lt
  unfold encodeOctet at hc
  split_ifs at hc with hkept
  · rw [List.mem_singleton.mp hc, hkept] at hd
    cases hd
  · simp only [List.mem_cons, List.not_mem_nil, or_false] at hc
    rcases hc with rfl | rfl | rfl
    · exact hpercent rfl
    · exact hhex _ (by omega) rfl
    · exact hhex _ (by omega) rfl

end Decode

end FileService.Common.Percent
