import FileService.Transfer.Token

/-!
# Scanned numbers

A conversion `%nd` passes over blanks, takes a sign, and takes digits until its
width is full or no digit follows. What it takes need not be n digits.
-/
namespace FileService.Time
open FileService.Domain (Bytes)
open FileService.Transfer (isDigitOctet isSpaceOctet not_space_of_digit decimalValue signOf)

/-- `%nd` with the width n: the number, and the text behind it. -/
def scanInt (width : Nat) (text : Bytes) : Option (Int × Bytes) :=
  let body := text.dropWhile isSpaceOctet
  let (negative, behind) := signOf body
  let digits := (behind.take (width - (body.length - behind.length))).takeWhile isDigitOctet
  if digits = [] then none
  else
    some (if negative then -(decimalValue digits : Int) else decimalValue digits,
      behind.drop digits.length)

/-- A character of the format that stands for itself. -/
def scanLiteral (c : UInt8) : Bytes → Option Bytes
  | [] => none
  | d :: rest => if d = c then some rest else none

/-- The text that `c_str()` shows: what stands before the first NUL. -/
def cString (text : Bytes) : Bytes := text.takeWhile (· ≠ 0)

/-! ## What a conversion takes -/

/-- A sign, or none. -/
def IsSign (sign : Bytes) : Prop := sign = [] ∨ sign = [43] ∨ sign = [45]

/-- The conversion takes the field off the front of the text, and reads the number. -/
structure Scanned (width : Nat) (field rest : Bytes) (v : Int) (blanks sign digits : Bytes) : Prop where
  parts : field = blanks ++ (sign ++ digits)
  blank : ∀ c ∈ blanks, isSpaceOctet c = true
  signed : IsSign sign
  nonempty : digits ≠ []
  digit : ∀ c ∈ digits, isDigitOctet c = true
  fits : sign.length + digits.length ≤ width
  ends : sign.length + digits.length = width ∨ ∀ c ∈ rest.head?, isDigitOctet c = false
  value : v = if sign = [45] then -(decimalValue digits : Int) else decimalValue digits

/-- The field is what the conversion takes if the text behind it is the rest. -/
def Takes (width : Nat) (field rest : Bytes) (v : Int) : Prop :=
  ∃ blanks sign digits, Scanned width field rest v blanks sign digits

/-- The field is digits, as many as the conversion is wide. -/
structure Plain (width : Nat) (field : Bytes) : Prop where
  length : field.length = width
  digit : ∀ c ∈ field, isDigitOctet c = true

section Scanning
variable {width : Nat} {text field rest : Bytes} {v : Int}

theorem signOf_append {sign digits : Bytes} (hsign : IsSign sign) (hsome : digits ≠ [])
    (hdigit : ∀ c ∈ digits, isDigitOctet c = true) (rest : Bytes) :
    signOf (sign ++ digits ++ rest) = (decide (sign = [45]), digits ++ rest) := by
  rcases hsign with rfl | rfl | rfl
  · obtain ⟨c, digits, rfl⟩ := List.exists_cons_of_ne_nil hsome
    have hc := hdigit c List.mem_cons_self
    have hminus : c ≠ 45 := by
      rintro rfl
      exact absurd hc (by decide)
    have hplus : c ≠ 43 := by
      rintro rfl
      exact absurd hc (by decide)
    simp [signOf, hminus, hplus]
  · simp [signOf]
  · simp [signOf]

/-- What the sign is, and what follows it. -/
theorem signOf_spec (text : Bytes) : ∃ sign, IsSign sign ∧
    signOf text = (decide (sign = [45]), text.drop sign.length) ∧ sign ++ text.drop sign.length = text := by
  unfold signOf
  split_ifs with hminus hplus
  · refine ⟨[45], .inr (.inr rfl), by simp, ?_⟩
    cases text with
    | nil => cases hminus
    | cons c text => simp_all
  · refine ⟨[43], .inr (.inl rfl), by simp, ?_⟩
    cases text with
    | nil => cases hplus
    | cons c text => simp_all
  · exact ⟨[], .inl rfl, by simp, by simp⟩

/-- Digits at the front of a text, up to so many, are what is taken of it. -/
theorem takeWhile_take_eq {digits rest : Bytes} {room : Nat}
    (hdigit : ∀ c ∈ digits, isDigitOctet c = true) (hfits : digits.length ≤ room)
    (hends : digits.length = room ∨ ∀ c ∈ rest.head?, isDigitOctet c = false) :
    ((digits ++ rest).take room).takeWhile isDigitOctet = digits := by
  rw [List.take_append, List.take_of_length_le hfits, List.takeWhile_append_of_pos hdigit]
  rcases hends with hfull | hnone
  · rw [hfull, Nat.sub_self, List.take_zero, List.takeWhile_nil, List.append_nil]
  · cases rest with
    | nil => simp
    | cons c rest =>
      have hc := hnone c rfl
      cases room - digits.length with
      | zero => simp
      | succ n => simp [hc]

theorem scanInt_of_takes (h : Takes width field rest v) : scanInt width (field ++ rest) = some (v, rest) := by
  obtain ⟨blanks, sign, digits, h⟩ := h
  have hbody : (field ++ rest).dropWhile isSpaceOctet = sign ++ digits ++ rest := by
    rw [h.parts, List.append_assoc, List.dropWhile_append_of_pos h.blank]
    have hsigned : ∀ c ∈ (sign ++ digits ++ rest).head?, isSpaceOctet c = false := by
      obtain ⟨d, ds, hds⟩ := List.exists_cons_of_ne_nil h.nonempty
      have hd : isSpaceOctet d = false := not_space_of_digit (h.digit d (by simp [hds]))
      rcases h.signed with hs | hs | hs <;> simp [hs, hds] <;> first | exact hd | decide
    cases hwhole : sign ++ digits ++ rest with
    | nil => rfl
    | cons c later =>
      rw [hwhole] at hsigned
      exact List.dropWhile_cons_of_neg (by simp [hsigned c rfl])
  have hroom : width - ((sign ++ digits ++ rest).length - (digits ++ rest).length) =
      width - sign.length := by
    simp only [List.length_append]
    omega
  have hfits := h.fits
  have htaken : ((digits ++ rest).take (width - sign.length)).takeWhile isDigitOctet = digits :=
    takeWhile_take_eq h.digit (by omega) (h.ends.imp_left fun hfull => by omega)
  unfold scanInt
  dsimp only
  rw [hbody, signOf_append h.signed h.nonempty h.digit]
  dsimp only
  rw [hroom, htaken, if_neg h.nonempty, List.drop_left, h.value]
  simp

theorem takes_of_scanInt (h : scanInt width text = some (v, rest)) :
    ∃ field, text = field ++ rest ∧ Takes width field rest v := by
  obtain ⟨sign, hsign, hsignOf, hbody⟩ := signOf_spec (text.dropWhile isSpaceOctet)
  unfold scanInt at h
  dsimp only at h
  rw [hsignOf] at h
  dsimp only at h
  obtain ⟨behind, hbehind⟩ : ∃ behind, behind = (text.dropWhile isSpaceOctet).drop sign.length :=
    ⟨_, rfl⟩
  rw [← hbehind] at h hbody
  have hroom : width - ((text.dropWhile isSpaceOctet).length - behind.length) = width - sign.length := by
    rw [← hbody, List.length_append, Nat.add_sub_cancel]
  rw [hroom] at h
  obtain ⟨digits, hdigits⟩ : ∃ digits,
      digits = (behind.take (width - sign.length)).takeWhile isDigitOctet := ⟨_, rfl⟩
  rw [← hdigits] at h
  have hnone : digits ≠ [] := by
    intro hnil
    rw [if_pos hnil] at h
    cases h
  rw [if_neg hnone] at h
  obtain ⟨rfl, rfl⟩ := Prod.mk.inj (Option.some.inj h)
  have hinitial : digits <+: behind :=
    hdigits ▸ (List.takeWhile_prefix _).trans (List.take_prefix _ _)
  obtain ⟨rest, rfl⟩ := hinitial
  have hlength : digits.length ≤ width - sign.length := by
    rw [hdigits]
    exact (List.takeWhile_prefix _).length_le.trans (List.length_take_le _ _)
  have hpos := List.length_pos_of_ne_nil hnone
  have hdigit : ∀ c ∈ digits, isDigitOctet c = true := by
    intro c hc
    rw [hdigits] at hc
    exact List.mem_takeWhile_imp hc
  rw [List.drop_left]
  refine ⟨text.takeWhile isSpaceOctet ++ (sign ++ digits), ?_, text.takeWhile isSpaceOctet, sign,
    digits, ⟨rfl, fun c hc => List.mem_takeWhile_imp hc, hsign, hnone, hdigit, by omega, ?_, ?_⟩⟩
  · rw [List.append_assoc, List.append_assoc, hbody, List.takeWhile_append_dropWhile]
  · by_contra hmore
    obtain ⟨hroomy, hnext⟩ := not_or.mp hmore
    simp only [not_forall] at hnext
    obtain ⟨c, hc, hnext⟩ := hnext
    rw [Bool.not_eq_false] at hnext
    cases rest with
    | nil => cases hc
    | cons d rest =>
      cases hc
      have hlonger : ((digits ++ c :: rest).take (width - sign.length)).takeWhile isDigitOctet ≠
          digits := by
        rw [List.take_append, List.take_of_length_le hlength, List.takeWhile_append_of_pos hdigit]
        have hsucc : width - sign.length - digits.length =
            (width - sign.length - digits.length - 1) + 1 := by omega
        rw [hsucc, List.take_succ_cons, List.takeWhile_cons_of_pos hnext]
        simp
      exact hlonger hdigits.symm
  · simp only [decide_eq_true_eq]

/-- A plain field is taken as it is, whatever follows. -/
theorem takes_of_plain (h : Plain width field) (hwidth : 0 < width) :
    Takes width field rest (decimalValue field) := by
  refine ⟨[], [], field, ⟨rfl, by simp, .inl rfl, ?_, h.digit, ?_, .inl ?_, rfl⟩⟩
  · rintro rfl
    exact absurd h.length (by simpa using hwidth.ne)
  · simpa using h.length.le
  · simpa using h.length

/-- A plain field has no other value. -/
theorem value_of_plain (h : Plain width field) (htakes : Takes width field rest v) (hwidth : 0 < width) :
    v = decimalValue field :=
  (Prod.mk.inj (Option.some.inj ((scanInt_of_takes htakes).symm.trans
    (scanInt_of_takes (takes_of_plain h hwidth))))).1

/-- No digit behind the field is needed to see where it ends if none can follow. -/
theorem Takes.of_rest {rest' : Bytes} (h : Takes width field rest v)
    (hrest' : ∀ c ∈ rest'.head?, isDigitOctet c = false) : Takes width field rest' v := by
  obtain ⟨blanks, sign, digits, h⟩ := h
  exact ⟨blanks, sign, digits, { h with ends := .inr hrest' }⟩

/-- A field holds blanks, signs and digits only. -/
theorem mem_of_takes {c : UInt8} (h : Takes width field rest v) (hc : c ∈ field) :
    isSpaceOctet c = true ∨ c = 43 ∨ c = 45 ∨ isDigitOctet c = true := by
  obtain ⟨blanks, sign, digits, h⟩ := h
  rw [h.parts] at hc
  rcases List.mem_append.mp hc with hc | hc
  · exact .inl (h.blank c hc)
  · rcases List.mem_append.mp hc with hc | hc
    · rcases h.signed with hs | hs | hs <;> simp_all
    · exact .inr (.inr (.inr (h.digit c hc)))

theorem scanLiteral_eq_some {c : UInt8} : scanLiteral c text = some rest ↔ text = c :: rest := by
  cases text with
  | nil => simp [scanLiteral]
  | cons d text =>
    rw [scanLiteral]
    split_ifs with h <;> simp [h]

end Scanning

end FileService.Time
