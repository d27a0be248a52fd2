import FileService.Domain.Types
import Mathlib.Data.List.DropRight

/-!
# Base64url and the comparison of signatures

Octets are written six bits at a time, in the alphabet for URLs and without
padding. The reader takes both alphabets, drops padding, and wants the bits
that are left over at the end to be zero.
-/
namespace FileService.Common.Crypto
open FileService.Domain (Bytes)

/-- The octets of a text in UTF-8. -/
def octets (text : String) : Bytes := text.toUTF8.data.toList

theorem octets_ofList (chars : List Char) :
    octets (String.ofList chars) = chars.flatMap String.utf8EncodeChar := by
  simp [octets, List.utf8Encode]

/-- The text that octets are in UTF-8, if they are one. -/
def textOf (bytes : Bytes) : Option String := String.fromUTF8? ⟨bytes.toArray⟩

theorem textOf_octets (text : String) : textOf (octets text) = some text :=
  dif_pos text.isValidUTF8

/-! ## Writing -/

def b64Url : List UInt8 :=
  octets "ABCDEFGHIJKLMNOPQRSTUVWXYZabcdefghijklmnopqrstuvwxyz0123456789-_"

/-- The letter for the low six bits of a number. -/
def b64Letter (n : Nat) : UInt8 := b64Url.getD (n % 64) 0

/-- `Base64UrlEncode` -/
def base64UrlEncode : Bytes → Bytes
  | [] => []
  | [a] =>
    let v := a.toNat * 65536
    [b64Letter (v / 262144), b64Letter (v / 4096)]
  | [a, b] =>
    let v := a.toNat * 65536 + b.toNat * 256
    [b64Letter (v / 262144), b64Letter (v / 4096), b64Letter (v / 64)]
  | a :: b :: c :: rest =>
    let v := a.toNat * 65536 + b.toNat * 256 + c.toNat
    b64Letter (v / 262144) :: b64Letter (v / 4096) :: b64Letter (v / 64) :: b64Letter v ::
      base64UrlEncode rest

/-! ## Reading -/

/-- `B64Value` -/
def b64Value (c : UInt8) : Option Nat :=
  if 65 ≤ c.toNat ∧ c.toNat ≤ 90 then some (c.toNat - 65)
  else if 97 ≤ c.toNat ∧ c.toNat ≤ 122 then some (c.toNat - 97 + 26)
  else if 48 ≤ c.toNat ∧ c.toNat ≤ 57 then some (c.toNat - 48 + 52)
  else if c = 43 ∨ c = 45 then some 62
  else if c = 47 ∨ c = 95 then some 63
  else none

/-- The loop over the letters; the accumulator has 32 bits. -/
def decodeFrom (acc bits : Nat) : Bytes → Option Bytes
  | [] => if acc % 2 ^ bits = 0 then some [] else none
  | c :: rest =>
    match b64Value c with
    | none => none
    | some v =>
      let acc := (acc * 64 + v) % 2 ^ 32
      if 8 ≤ bits + 6 then
        (decodeFrom acc (bits - 2) rest).map (UInt8.ofNat (acc / 2 ^ (bits - 2)) :: ·)
      else decodeFrom acc (bits + 6) rest

/-- `Base64UrlDecode`; padding at the end is dropped. -/
def base64UrlDecode (text : Bytes) : Option Bytes := decodeFrom 0 0 (text.rdropWhile (· == 61))

/-- `ConstantTimeEquals`: every octet is looked at, whatever the others are. -/
def constantTimeEquals (a b : Bytes) : Bool :=
  a.length == b.length && (a.zip b).foldl (fun diff p => diff ||| (p.1 ^^^ p.2)) 0 == 0

def hexLetter (n : Nat) : UInt8 := (octets "0123456789abcdef").getD n 0

/-- `ToHex` -/
def toHex (bytes : Bytes) : Bytes :=
  bytes.flatMap fun b => [hexLetter (b.toNat / 16), hexLetter (b.toNat % 16)]

/-! ## What is written is read back -/

/-- The alphabet as octets, read from its text once. -/
theorem b64Url_eq : b64Url =
    [65, 66, 67, 68, 69, 70, 71, 72, 73, 74, 75, 76, 77, 78, 79, 80, 81, 82, 83, 84, 85, 86, 87,
    88, 89, 90, 97, 98, 99, 100, 101, 102, 103, 104, 105, 106, 107, 108, 109, 110, 111, 112, 113,
    114, 115, 116, 117, 118, 119, 120, 121, 122, 48, 49, 50, 51, 52, 53, 54, 55, 56, 57, 45, 95] := by
  refine (octets_ofList _).trans ?_
  decide +kernel

theorem b64Value_letter (n : Nat) : b64Value (b64Letter n) = some (n % 64) := by
  have hall : ∀ m : Fin 64, b64Value (b64Url.getD m 0) = some m.val := by
    rw [b64Url_eq]
    decide +kernel
  exact hall ⟨n % 64, Nat.mod_lt _ (by decide)⟩

/-- The letters are no dot and no padding. -/
theorem b64Letter_plain (n : Nat) : b64Letter n ≠ 46 ∧ b64Letter n ≠ 61 := by
  have hall : ∀ m : Fin 64, b64Url.getD m 0 ≠ 46 ∧ b64Url.getD m 0 ≠ 61 := by
    rw [b64Url_eq]
    decide +kernel
  exact hall ⟨n % 64, Nat.mod_lt _ (by decide)⟩

theorem mem_base64UrlEncode {data : Bytes} : ∀ c ∈ base64UrlEncode data, c ≠ 46 ∧ c ≠ 61 := by
  induction data using base64UrlEncode.induct with
  | case1 => simp [base64UrlEncode]
  | case2 a => simp [base64UrlEncode, b64Letter_plain]
  | case3 a b => simp [base64UrlEncode, b64Letter_plain]
  | case4 a b c rest ih =>
    intro letter hletter
    simp only [base64UrlEncode, List.mem_cons] at hletter
    rcases hletter with rfl | rfl | rfl | rfl | hrest
    · exact b64Letter_plain _
    · exact b64Letter_plain _
    · exact b64Letter_plain _
    · exact b64Letter_plain _
    · exact ih letter hrest

theorem decodeFrom_letter (acc bits n : Nat) (rest : Bytes) :
    decodeFrom acc bits (b64Letter n :: rest) =
      if 8 ≤ bits + 6 then
        (decodeFrom ((acc * 64 + n % 64) % 2 ^ 32) (bits - 2) rest).map
          (UInt8.ofNat ((acc * 64 + n % 64) % 2 ^ 32 / 2 ^ (bits - 2)) :: ·)
      else decodeFrom ((acc * 64 + n % 64) % 2 ^ 32) (bits + 6) rest := by
  rw [decodeFrom, b64Value_letter]

/-- An octet is what its number comes to modulo 256. -/
theorem ofNat_of_mod {n : Nat} {a : UInt8} (h : n % 256 = a.toNat) : UInt8.ofNat n = a := by
  apply UInt8.toNat_inj.mp
  simpa using h

/-- However the accumulator starts, three octets come out of four letters. -/
theorem decodeFrom_encode (data : Bytes) (acc : Nat) :
    decodeFrom acc 0 (base64UrlEncode data) = some data := by
  induction data using base64UrlEncode.induct generalizing acc with
  | case1 => simp [base64UrlEncode, decodeFrom, Nat.mod_one]
  | case2 a =>
    have ha := a.toNat_lt
    simp only [base64UrlEncode, decodeFrom_letter]
    simp [decodeFrom]
    refine ⟨?_, ofNat_of_mod ?_⟩ <;> omega
  | case3 a b =>
    have ha := a.toNat_lt
    have hb := b.toNat_lt
    simp only [base64UrlEncode, decodeFrom_letter]
    simp [decodeFrom]
    refine ⟨?_, ofNat_of_mod ?_, ofNat_of_mod ?_⟩ <;> omega
  | case4 a b c rest ih =>
    have ha := a.toNat_lt
    have hb := b.toNat_lt
    have hc := c.toNat_lt
    simp only [base64UrlEncode, decodeFrom_letter]
    norm_num [ih]
    refine ⟨ofNat_of_mod ?_, ofNat_of_mod ?_, ofNat_of_mod ?_⟩ <;> omega

theorem base64UrlDecode_encode (data : Bytes) :
    base64UrlDecode (base64UrlEncode data) = some data := by
  have hplain : (base64UrlEncode data).rdropWhile (· == 61) = base64UrlEncode data := by
    rw [List.rdropWhile_eq_self_iff]
    intro hne
    simpa using (mem_base64UrlEncode _ (List.getLast_mem hne)).2
  rw [base64UrlDecode, hplain, decodeFrom_encode]

theorem base64UrlEncode_injective : Function.Injective base64UrlEncode := by
  intro x y h
  have hx := base64UrlDecode_encode x
  rw [h, base64UrlDecode_encode] at hx
  exact (Option.some.inj hx).symm

/-- The differences add up to zero only if there are none. -/
theorem foldl_diff_eq_zero (pairs : List (UInt8 × UInt8)) (diff : UInt8) :
    pairs.foldl (fun diff p => diff ||| (p.1 ^^^ p.2)) diff = 0 ↔
      diff = 0 ∧ ∀ p ∈ pairs, p.1 = p.2 := by
  induction pairs generalizing diff with
  | nil => simp
  | cons p pairs ih => simp [ih, and_assoc]

theorem constantTimeEquals_iff {a b : Bytes} : constantTimeEquals a b = true ↔ a = b := by
  simp only [constantTimeEquals, Bool.and_eq_true, beq_iff_eq, foldl_diff_eq_zero, true_and]
  constructor
  · intro ⟨hlength, hpairs⟩
    apply List.ext_getElem hlength
    intro i ha hb
    have hmem : (a[i], b[i]) ∈ a.zip b := by
      rw [← List.getElem_zip]
      · exact List.getElem_mem _
      · simpa [hlength] using hb
    exact hpairs _ hmem
  · rintro rfl
    refine ⟨rfl, fun p hp => ?_⟩
    obtain ⟨i, hi, rfl⟩ := List.mem_iff_getElem.mp hp
    simp

end FileService.Common.Crypto
