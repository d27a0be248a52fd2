import FileService.Common.Crypto

/-!
# Spellings in base64url

Four letters stand for three octets, and two or three letters at the end for one
or two. A single letter at the end stands for nothing, and the reader lets it
pass if its bits are zero.
-/
namespace FileService.Common.Crypto
open FileService.Domain (Bytes)

/-! ## Letters as numbers -/

section Letters
variable {v : Nat}

theorem b64Letter_congr {m n : Nat} (h : m % 64 = n % 64) : b64Letter m = b64Letter n := by
  rw [b64Letter, b64Letter, h]

/-- The number of a letter can be read off it. -/
theorem exists_b64Letter {c : UInt8} (h : c ∈ b64Url) : ∃ v < 64, c = b64Letter v := by
  obtain ⟨v, hv, rfl⟩ := List.mem_iff_getElem.mp h
  have hlength : b64Url.length = 64 := by decide
  refine ⟨v, by omega, ?_⟩
  rw [b64Letter, Nat.mod_eq_of_lt (by omega)]
  simp [List.getD, hv]

theorem exists_values {text : Bytes} (h : ∀ c ∈ text, c ∈ b64Url) :
    ∃ vs : List Nat, (∀ v ∈ vs, v < 64) ∧ text = vs.map b64Letter := by
  induction text with
  | nil => exact ⟨[], by simp, rfl⟩
  | cons c text ih =>
    obtain ⟨v, hv, rfl⟩ := exists_b64Letter (h c List.mem_cons_self)
    obtain ⟨vs, hvs, rfl⟩ := ih fun d hd => h d (List.mem_cons_of_mem _ hd)
    exact ⟨v :: vs, by simpa using ⟨hv, hvs⟩, rfl⟩

theorem b64Letter_eq_A (h : v < 64) : b64Letter v = 65 ↔ v = 0 := by
  have hall : ∀ m : Fin 64, b64Letter m.val = 65 ↔ m.val = 0 := by decide +kernel
  exact hall ⟨v, h⟩

end Letters

/-! ## What letters stand for -/

section Values
variable {vs : List Nat} {v w x y n : Nat}

/-- The octets that lie across four letters with these numbers. -/
def firstOctet (v w : Nat) : UInt8 := UInt8.ofNat (v * 4 + w / 16)
def secondOctet (w x : Nat) : UInt8 := UInt8.ofNat (w % 16 * 16 + x / 4)
def thirdOctet (x y : Nat) : UInt8 := UInt8.ofNat (x % 4 * 64 + y)

theorem ofNat_congr {m : Nat} (h : m % 256 = n % 256) : UInt8.ofNat m = UInt8.ofNat n :=
  ofNat_of_mod (by rw [UInt8.toNat_ofNat', h])

/-- The octets for which letters with these numbers are read. -/
def octetsOf : List Nat → Option Bytes
  | [] => some []
  | [v] => if v = 0 then some [] else none
  | [v, w] => if w % 16 = 0 then some [firstOctet v w] else none
  | [v, w, x] => if x % 4 = 0 then some [firstOctet v w, secondOctet w x] else none
  | v :: w :: x :: y :: rest =>
    (octetsOf rest).map fun data => firstOctet v w :: secondOctet w x :: thirdOctet x y :: data

theorem decodeFrom_values (hvs : ∀ v ∈ vs, v < 64) (acc : Nat) :
    decodeFrom acc 0 (vs.map b64Letter) = octetsOf vs := by
  induction vs using octetsOf.induct generalizing acc with
  | case1 => simp [decodeFrom, octetsOf, Nat.mod_one]
  | case2 =>
    simp only [List.map_cons, List.map_nil, decodeFrom_letter]
    norm_num [decodeFrom, octetsOf]
  | case3 v hv =>
    have hlt := hvs v (by simp)
    simp only [List.map_cons, List.map_nil, decodeFrom_letter]
    norm_num [decodeFrom, octetsOf, hv]
    omega
  | case4 v w hw =>
    have hv := hvs v (by simp)
    have hw' := hvs w (by simp)
    simp only [List.map_cons, List.map_nil, decodeFrom_letter]
    norm_num [decodeFrom, octetsOf, hw]
    exact ⟨by omega, ofNat_congr (by omega)⟩
  | case5 v w hw =>
    simp only [List.map_cons, List.map_nil, decodeFrom_letter]
    norm_num [decodeFrom, octetsOf, hw]
    omega
  | case6 v w x hx =>
    have hv := hvs v (by simp)
    have hw := hvs w (by simp)
    have hx' := hvs x (by simp)
    simp only [List.map_cons, List.map_nil, decodeFrom_letter]
    norm_num [decodeFrom, octetsOf, hx]
    exact ⟨by omega, ofNat_congr (by omega), ofNat_congr (by omega)⟩
  | case7 v w x hx =>
    simp only [List.map_cons, List.map_nil, decodeFrom_letter]
    norm_num [decodeFrom, octetsOf, hx]
    omega
  | case8 v w x y rest ih =>
    have hv := hvs v (by simp)
    have hw := hvs w (by simp)
    have hx := hvs x (by simp)
    have hy := hvs y (by simp)
    simp only [List.map_cons, decodeFrom_letter]
    norm_num [octetsOf, ih fun v hv => hvs v (by simp [hv])]
    congr 1
    funext data
    exact congrArg₂ List.cons (ofNat_congr (by omega))
      (congrArg₂ List.cons (ofNat_congr (by omega)) (congrArg (· :: data) (ofNat_congr (by omega))))

theorem toNat_firstOctet (hv : v < 64) (hw : w < 64) : (firstOctet v w).toNat = v * 4 + w / 16 := by
  rw [firstOctet, UInt8.toNat_ofNat']
  omega

theorem toNat_secondOctet (hx : x < 64) : (secondOctet w x).toNat = w % 16 * 16 + x / 4 := by
  rw [secondOctet, UInt8.toNat_ofNat']
  omega

theorem toNat_thirdOctet (hy : y < 64) : (thirdOctet x y).toNat = x % 4 * 64 + y := by
  rw [thirdOctet, UInt8.toNat_ofNat']
  omega

/-- Octets are written with the letters they were read from, but a letter that is left over is
not written. -/
theorem encode_octetsOf (hvs : ∀ v ∈ vs, v < 64) {data : Bytes} (h : octetsOf vs = some data) :
    vs.length % 4 ≠ 1 ∧ vs.map b64Letter = base64UrlEncode data ∨
      vs.length % 4 = 1 ∧ vs.getLast? = some 0 := by
  induction vs using octetsOf.induct generalizing data with
  | case1 =>
    cases h
    exact .inl ⟨by simp, rfl⟩
  | case2 => exact .inr ⟨rfl, rfl⟩
  | case3 v hv =>
    rw [octetsOf, if_neg hv] at h
    cases h
  | case4 v w hw =>
    have hv := hvs v (by simp)
    have hw' := hvs w (by simp)
    rw [octetsOf, if_pos hw] at h
    cases h
    refine .inl ⟨by simp, ?_⟩
    simp only [List.map_cons, List.map_nil, base64UrlEncode, toNat_firstOctet hv hw',
      List.cons.injEq, and_true]
    exact ⟨b64Letter_congr (by omega), b64Letter_congr (by omega)⟩
  | case5 v w hw =>
    rw [octetsOf, if_neg hw] at h
    cases h
  | case6 v w x hx =>
    have hv := hvs v (by simp)
    have hw := hvs w (by simp)
    have hx' := hvs x (by simp)
    rw [octetsOf, if_pos hx] at h
    cases h
    refine .inl ⟨by simp, ?_⟩
    simp only [List.map_cons, List.map_nil, base64UrlEncode, toNat_firstOctet hv hw,
      toNat_secondOctet hx', List.cons.injEq, and_true]
    exact ⟨b64Letter_congr (by omega), b64Letter_congr (by omega), b64Letter_congr (by omega)⟩
  | case7 v w x hx =>
    rw [octetsOf, if_neg hx] at h
    cases h
  | case8 v w x y rest ih =>
    have hv := hvs v (by simp)
    have hw := hvs w (by simp)
    have hx := hvs x (by simp)
    have hy := hvs y (by simp)
    rw [octetsOf, Option.map_eq_some_iff] at h
    obtain ⟨later, hlater, rfl⟩ := h
    have hlength : (v :: w :: x :: y :: rest).length % 4 = rest.length % 4 :=
      Nat.add_mod_right rest.length 4
    rw [hlength]
    rcases ih (fun v hv => hvs v (by simp [hv])) hlater with ⟨hmod, hspelled⟩ | ⟨hmod, hlast⟩
    · refine .inl ⟨hmod, ?_⟩
      simp only [List.map_cons, base64UrlEncode, toNat_firstOctet hv hw, toNat_secondOctet hx,
        toNat_thirdOctet hy, hspelled, List.cons.injEq, and_true]
      exact ⟨b64Letter_congr (by omega), b64Letter_congr (by omega), b64Letter_congr (by omega),
        b64Letter_congr (by omega)⟩
    · exact .inr ⟨hmod, by simp [List.getLast?_cons, hlast]⟩

/-- A zero that is left over is read. -/
theorem exists_octetsOf (hmod : vs.length % 4 = 1) (hlast : vs.getLast? = some 0) :
    ∃ data, octetsOf vs = some data := by
  induction vs using octetsOf.induct with
  | case2 => exact ⟨[], rfl⟩
  | case3 v hv => exact absurd (Option.some.inj hlast) hv
  | case8 v w x y rest ih =>
    have hrest : rest ≠ [] := by
      rintro rfl
      simp at hmod
    have hsame : (v :: w :: x :: y :: rest).getLast? = rest.getLast? := by
      rw [List.getLast?_eq_getLast_of_ne_nil hrest, List.getLast?_eq_getLast_of_ne_nil (by simp)]
      simp [List.getLast_cons, hrest]
    obtain ⟨data, hdata⟩ := ih ((Nat.add_mod_right rest.length 4).symm.trans hmod)
      (hsame.symm.trans hlast)
    exact ⟨_, by rw [octetsOf, hdata]; rfl⟩
  | _ => simp at hmod

theorem length_encode (data : Bytes) : (base64UrlEncode data).length % 4 ≠ 1 := by
  induction data using base64UrlEncode.induct with
  | case4 a b c rest ih =>
    rw [base64UrlEncode]
    exact fun hmod => ih ((Nat.add_mod_right _ 4).symm.trans hmod)
  | _ => simp [base64UrlEncode]

end Values

/-! ## One spelling -/

/-- What is written is read back, and a text of letters is the one spelling of what is read from
it, exactly if it does not end with a single letter `A` behind groups of four. -/
theorem one_spelling (data text : Bytes) (htext : ∀ c ∈ text, c ∈ b64Url) :
    base64UrlDecode (base64UrlEncode data) = some data ∧
      ((∀ b, base64UrlDecode text = some b → text = base64UrlEncode b) ↔
        ¬(text.length % 4 = 1 ∧ text.getLast? = some 65)) := by
  refine ⟨base64UrlDecode_encode data, ?_⟩
  obtain ⟨vs, hvs, rfl⟩ := exists_values htext
  have hplain : (vs.map b64Letter).rdropWhile (· == 61) = vs.map b64Letter := by
    rw [List.rdropWhile_eq_self_iff]
    intro hne
    obtain ⟨v, -, hv⟩ := List.mem_map.mp (List.getLast_mem hne)
    rw [← hv]
    simpa using (b64Letter_plain v).2
  have hlast : (vs.map b64Letter).getLast? = some 65 ↔ vs.getLast? = some 0 := by
    rw [List.getLast?_map, Option.map_eq_some_iff]
    constructor
    · rintro ⟨v, hv, hletter⟩
      rw [hv, (b64Letter_eq_A (hvs v (List.mem_of_getLast? hv))).mp hletter]
    · intro hzero
      exact ⟨0, hzero, (b64Letter_eq_A (by decide)).mpr rfl⟩
  rw [base64UrlDecode, hplain, decodeFrom_values hvs, List.length_map, hlast]
  constructor
  · rintro hspelled ⟨hmod, hzero⟩
    obtain ⟨b, hb⟩ := exists_octetsOf hmod hzero
    apply length_encode b
    rw [← hspelled b hb, List.length_map, hmod]
  · intro hnot b hb
    rcases encode_octetsOf hvs hb with ⟨-, hspelled⟩ | hleft
    · exact hspelled
    · exact absurd hleft hnot

theorem one_spelling_abc :
    base64UrlDecode (base64UrlEncode [1, 2]) = some [1, 2] ∧
      ((∀ b, base64UrlDecode (octets "AQI") = some b → octets "AQI" = base64UrlEncode b) ↔
        ¬((octets "AQI").length % 4 = 1 ∧ (octets "AQI").getLast? = some 65)) :=
  one_spelling [1, 2] (octets "AQI") (by decide +kernel)

/-- The letter `A` alone is read as nothing. -/
theorem single_letter_read :
    ¬∀ text : Bytes, (∀ c ∈ text, c ∈ b64Url) →
      ∀ b, base64UrlDecode text = some b → text = base64UrlEncode b := by
  intro h
  have hread : base64UrlDecode [65] = some [] := by decide +kernel
  have hspelled := h [65] (by decide +kernel) [] hread
  cases hspelled

end FileService.Common.Crypto
