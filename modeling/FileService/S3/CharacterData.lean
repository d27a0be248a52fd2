import FileService.S3.BlobStore

/-!
# Character data

A character may be written as itself, as one of the five named entities, or as a
reference with its number. What is read back are octets; a text comes back as it
was when these are its octets in UTF-8.
-/
namespace FileService.S3
open FileService.Common FileService.Common.Crypto FileService.Domain
open FileService.Transfer (isSpaceOctet signOf)

/-! ## Ways to write a character -/

inductive NamedEntity where
  | amp
  | lt
  | gt
  | quot
  | apos

def NamedEntity.name : NamedEntity → Bytes
  | .amp => octets "amp"
  | .lt => octets "lt"
  | .gt => octets "gt"
  | .quot => octets "quot"
  | .apos => octets "apos"

def NamedEntity.char : NamedEntity → Char
  | .amp => '&'
  | .lt => '<'
  | .gt => '>'
  | .quot => '"'
  | .apos => '\''

def baseOf (hexadecimal : Bool) : Nat := if hexadecimal then 16 else 10

/-- Digits of a base whose number is that of the character. -/
structure CharacterReference where
  hexadecimal : Bool
  digits : Bytes
  char : Char
  nonempty : digits ≠ []
  legal : ∀ c ∈ digits, ∃ d, Percent.hexDigit? c = some d ∧ d < baseOf hexadecimal
  number : digits.foldl (fun n c => baseOf hexadecimal * n + (Percent.hexDigit? c).getD 0) 0 =
    char.toNat

def CharacterReference.entity (reference : CharacterReference) : Bytes :=
  35 :: (if reference.hexadecimal then 120 :: reference.digits else reference.digits)

/-- A character as it may be written in character data. -/
inductive Spelling where
  | literal (c : Char) (plain : c ≠ '&' ∧ c ≠ '<')
  | named (entity : NamedEntity)
  | numeric (reference : CharacterReference)

namespace Spelling

def char : Spelling → Char
  | .literal c _ => c
  | .named entity => entity.char
  | .numeric reference => reference.char

def written : Spelling → Bytes
  | .literal c _ => String.utf8EncodeChar c
  | .named entity => 38 :: (entity.name ++ [59])
  | .numeric reference => 38 :: (reference.entity ++ [59])

/-- The octets that are read for it. -/
def decoded : Spelling → Bytes
  | .literal c _ => String.utf8EncodeChar c
  | .named entity => String.utf8EncodeChar entity.char
  | .numeric reference =>
    if 0 < reference.char.toNat ∧ reference.char.toNat < 256 then
      [UInt8.ofNat reference.char.toNat]
    else []

/-- The number of a reference is that of a character of one octet, other than zero. -/
def Short : Spelling → Prop
  | .numeric reference => 0 < reference.char.toNat ∧ reference.char.toNat < 128
  | _ => True

end Spelling

abbrev CharacterData := List Spelling

/-- The text that is written. -/
def CharacterData.text (data : CharacterData) : String := String.ofList (data.map Spelling.char)

def CharacterData.written (data : CharacterData) : Bytes := data.flatMap Spelling.written

def CharacterData.decoded (data : CharacterData) : Bytes := data.flatMap Spelling.decoded

def CharacterData.Short (data : CharacterData) : Prop := ∀ spelling ∈ data, spelling.Short

/-! ## Finding a text -/

section Finding
variable {pattern before after data rest : Bytes} {c : UInt8}

theorem findText_split (h : findText pattern data = some (before, after)) :
    data = before ++ (pattern ++ after) := by
  induction data generalizing before with
  | nil =>
    rw [findText] at h
    split at h
    · obtain ⟨rfl, rfl⟩ := Prod.mk.inj (Option.some.inj h)
      simp [*]
    · cases h
  | cons c data ih =>
    rw [findText] at h
    split at h
    · rename_i hstart
      obtain ⟨rfl, rfl⟩ := Prod.mk.inj (Option.some.inj h)
      exact (List.prefix_iff_eq_append.mp (List.isPrefixOf_iff_prefix.mp hstart)).symm
    · obtain ⟨⟨before', after'⟩, hfound, hpair⟩ := Option.map_eq_some_iff.mp h
      obtain ⟨rfl, rfl⟩ := Prod.mk.inj hpair
      exact congrArg (c :: ·) (ih hfound)

/-- No occurrence starts in a part where the first octet of the pattern does not occur. -/
theorem findText_skip (hdata : c ∉ data) : findText (c :: pattern) (data ++ rest) =
    (findText (c :: pattern) rest).map fun p => (data ++ p.1, p.2) := by
  induction data with
  | nil => simp
  | cons d data ih =>
    obtain ⟨hne, hrest⟩ := List.ne_and_not_mem_of_not_mem_cons hdata
    have hstart : ¬(c :: pattern).isPrefixOf (d :: (data ++ rest)) = true := by
      simp [List.isPrefixOf, hne]
    rw [List.cons_append, findText, if_neg hstart, ih hrest, Option.map_map]
    rfl

theorem findText_here : findText pattern (pattern ++ rest) = some ([], rest) := by
  have hstart : pattern.isPrefixOf (pattern ++ rest) = true :=
    List.isPrefixOf_iff_prefix.mpr (List.prefix_append _ _)
  cases hwhole : pattern ++ rest with
  | nil =>
    obtain ⟨rfl, rfl⟩ := List.append_eq_nil_iff.mp hwhole
    rfl
  | cons d others =>
    rw [hwhole] at hstart
    rw [findText, if_pos hstart, ← hwhole, List.drop_left]

end Finding

/-! ## Reading an entity -/

section Entities
variable {text entity rest data : Bytes} {fuel fuel' : Nat} {c : UInt8}

/-- More fuel than there are octets makes no difference. -/
theorem xmlUnescapeFrom_eq (hfuel : text.length ≤ fuel) (hfuel' : text.length ≤ fuel') :
    xmlUnescapeFrom fuel text = xmlUnescapeFrom fuel' text := by
  induction fuel generalizing fuel' text with
  | zero =>
    obtain rfl : text = [] := List.length_eq_zero_iff.mp (Nat.le_zero.mp hfuel)
    simp [xmlUnescapeFrom]
  | succ fuel ih =>
    cases text with
    | nil => simp [xmlUnescapeFrom]
    | cons c rest =>
      rw [List.length_cons] at hfuel hfuel'
      obtain ⟨k, rfl⟩ : ∃ k, fuel' = k + 1 := ⟨fuel' - 1, by omega⟩
      rw [xmlUnescapeFrom, xmlUnescapeFrom, ih (by omega) (show rest.length ≤ k by omega)]
      cases hfound : findText [59] rest with
      | none => rfl
      | some p =>
        obtain ⟨entity, after⟩ := p
        have hlength := congrArg List.length (findText_split hfound)
        simp only [List.length_append, List.length_cons, List.length_nil] at hlength
        dsimp only
        rw [ih (by omega) (show after.length ≤ k by omega)]

theorem xmlUnescapeFrom_length (hfuel : text.length ≤ fuel) :
    xmlUnescapeFrom fuel text = xmlUnescape text :=
  xmlUnescapeFrom_eq hfuel le_rfl

@[simp] theorem xmlUnescape_nil : xmlUnescape [] = [] := rfl

theorem xmlUnescape_plain (hdata : 38 ∉ data) :
    xmlUnescape (data ++ rest) = data ++ xmlUnescape rest := by
  induction data with
  | nil => rfl
  | cons c data ih =>
    obtain ⟨hne, hdata⟩ := List.ne_and_not_mem_of_not_mem_cons hdata
    rw [List.cons_append, xmlUnescape, List.length_cons, xmlUnescapeFrom, if_pos (Ne.symm hne),
      xmlUnescapeFrom_length le_rfl, ih hdata, List.cons_append]

theorem xmlUnescape_entity (hentity : 59 ∉ entity) :
    xmlUnescape (38 :: (entity ++ [59]) ++ rest) = xmlEntity entity ++ xmlUnescape rest := by
  have hfound : findText [59] (entity ++ 59 :: rest) = some (entity, rest) := by
    rw [findText_skip hentity]
    have hhere : findText [59] ([59] ++ rest) = some ([], rest) := findText_here
    rw [List.singleton_append] at hhere
    simp [hhere]
  have hlength : rest.length ≤ (entity ++ 59 :: rest).length := by
    simp only [List.length_append, List.length_cons]
    omega
  rw [List.cons_append, List.append_assoc, List.singleton_append, xmlUnescape, List.length_cons,
    xmlUnescapeFrom, if_neg (by simp), hfound]
  dsimp only
  rw [xmlUnescapeFrom_length hlength]

@[simp] theorem xmlEntity_named (entity : NamedEntity) :
    xmlEntity entity.name = String.utf8EncodeChar entity.char := by
  cases entity <;> decide +kernel

theorem separator_not_mem_name (entity : NamedEntity) : 59 ∉ entity.name := by
  cases entity <;> decide +kernel

end Entities

/-! ## Reading a number -/

section Numbers
variable {hexadecimal : Bool} {digits : Bytes} {c : UInt8}

/-- The octets that are no digits, though `strtol` knows them. -/
theorem not_digit_of_known : ∀ c : UInt8, isSpaceOctet c = true ∨ c = 45 ∨ c = 43 ∨ c = 120 ∨
    c = 88 ∨ c = 59 → Percent.hexDigit? c = none := by
  intro c hc
  have hnat : ∀ d : UInt8, d.toNat < 48 ∨ 57 < d.toNat ∧ d.toNat < 65 ∨
      70 < d.toNat ∧ d.toNat < 97 ∨ 102 < d.toNat → Percent.hexDigit? d = none := by
    intro d hd
    rw [Percent.hexDigit?, if_neg (by omega), if_neg (by omega), if_neg (by omega)]
  rcases hc with hspace | rfl | rfl | rfl | rfl | rfl
  · simp only [isSpaceOctet, Bool.or_eq_true, beq_iff_eq, Bool.and_eq_true, decide_eq_true_eq]
      at hspace
    refine hnat c ?_
    rcases hspace with rfl | hspace
    · decide
    · omega
  all_goals exact hnat _ (by decide)

theorem digitsFrom_legal {base : Nat} (value : Nat)
    (hlegal : ∀ c ∈ digits, ∃ d, Percent.hexDigit? c = some d ∧ d < base) :
    digitsFrom base value digits =
      digits.foldl (fun n c => base * n + (Percent.hexDigit? c).getD 0) value := by
  induction digits generalizing value with
  | nil => rfl
  | cons c digits ih =>
    obtain ⟨⟨d, hd, hlt⟩, hrest⟩ := List.forall_mem_cons.mp hlegal
    have hvalue : digitValue base c = some d := by simp [digitValue, hd, hlt]
    rw [digitsFrom, hvalue, List.foldl_cons, hd]
    exact ih _ hrest

/-- A number written in digits of the base only is read as that number. -/
theorem strtol_digits {base n : Nat} (hne : digits ≠ [])
    (hlegal : ∀ c ∈ digits, ∃ d, Percent.hexDigit? c = some d ∧ d < base)
    (hvalue : digits.foldl (fun n c => base * n + (Percent.hexDigit? c).getD 0) 0 = n)
    (hfits : n < 2 ^ 63) : strtol base digits = n := by
  have hdigit : ∀ c ∈ digits, Percent.hexDigit? c ≠ none := by
    intro c hc
    obtain ⟨d, hd, -⟩ := hlegal c hc
    simp [hd]
  obtain ⟨c, rest, rfl⟩ := List.exists_cons_of_ne_nil hne
  have hc := hdigit c List.mem_cons_self
  have hspace : isSpaceOctet c ≠ true := fun h => hc (not_digit_of_known c (.inl h))
  have hsign : signOf (c :: rest) = (false, c :: rest) := by
    have hminus : c ≠ 45 := fun h => hc (not_digit_of_known c (by simp [h]))
    have hplus : c ≠ 43 := fun h => hc (not_digit_of_known c (by simp [h]))
    simp [signOf, hminus, hplus]
  have hplain : (octets "0x").isPrefixOf (lower (c :: rest)) = false := by
    have hoctetts : octets "0x" = [48, 120] := by decide +kernel
    rw [hoctetts]
    cases rest with
    | nil => simp [lower, List.isPrefixOf]
    | cons d others =>
      have hd := hdigit d (by simp)
      have hsmall : d ≠ 120 := fun h => hd (not_digit_of_known d (by simp [h]))
      have hlarge : d ≠ 88 := fun h => hd (not_digit_of_known d (by simp [h]))
      have hlower : ¬120 = if 65 ≤ d ∧ d ≤ 90 then d + 32 else d := by
        split
        · have hsum : (120 : UInt8) = 88 + 32 := by decide
          exact fun h => hlarge ((UInt8.add_left_inj 32).mp (h.symm.trans hsum))
        · exact Ne.symm hsmall
      simp [lower, List.isPrefixOf, hlower]
  rw [strtol, List.dropWhile_cons_of_neg hspace, hsign]
  simp only [hplain, Bool.false_eq_true, and_false, if_false, digitsFrom_legal 0 hlegal, hvalue,
    saturated]
  omega

theorem code_lt (c : Char) : c.toNat < 2 ^ 63 := by
  have hvalid := c.val.toNat_lt
  have hcode : c.toNat = c.val.toNat := rfl
  omega

variable (reference : CharacterReference)

theorem xmlEntity_numeric (number : Bytes) : xmlEntity (35 :: number) =
    let code := if number[0]? = some 120 ∨ number[0]? = some 88 then strtol 16 (number.drop 1)
      else strtol 10 number
    if 0 < code ∧ code < 256 then [UInt8.ofNat code.toNat] else [] := by
  have hother : ∀ name : Bytes, name.head? ≠ some 35 → 35 :: number ≠ name := by
    rintro _ hhead rfl
    exact hhead rfl
  rw [xmlEntity, if_neg (hother _ (by decide +kernel)), if_neg (hother _ (by decide +kernel)),
    if_neg (hother _ (by decide +kernel)), if_neg (hother _ (by decide +kernel)),
    if_neg (hother _ (by decide +kernel)), if_pos List.head?_cons]
  simp

theorem xmlEntity_reference :
    xmlEntity reference.entity = (Spelling.numeric reference).decoded := by
  obtain ⟨hexadecimal, digits, char, hne, hlegal, hnumber⟩ := reference
  rw [CharacterReference.entity, xmlEntity_numeric]
  cases hexadecimal with
  | true =>
    have hread : strtol 16 digits = char.toNat := strtol_digits hne hlegal hnumber (code_lt char)
    simp [Spelling.decoded, hread]
  | false =>
    have hread : strtol 10 digits = char.toNat := strtol_digits hne hlegal hnumber (code_lt char)
    obtain ⟨c, others, rfl⟩ := List.exists_cons_of_ne_nil hne
    obtain ⟨d, hd, -⟩ := hlegal c List.mem_cons_self
    have hsmall : c ≠ 120 := by
      rintro rfl
      rw [not_digit_of_known 120 (by simp)] at hd
      cases hd
    have hlarge : c ≠ 88 := by
      rintro rfl
      rw [not_digit_of_known 88 (by simp)] at hd
      cases hd
    simp [Spelling.decoded, hsmall, hlarge, hread]

theorem separator_not_mem_entity : 59 ∉ reference.entity := by
  have hdigits : 59 ∉ reference.digits := by
    intro h
    obtain ⟨d, hd, -⟩ := reference.legal 59 h
    rw [not_digit_of_known 59 (by simp)] at hd
    cases hd
  unfold CharacterReference.entity
  split <;> simp [hdigits]

end Numbers

/-! ## What is read -/

section Reading
variable {c : Char} {b : UInt8} {spelling : Spelling} {data : CharacterData} {rest : Bytes}

/-- An octet below 128 is a character of its own. -/
theorem eq_of_low (hb : b ∈ String.utf8EncodeChar c) (hlow : b.toNat < 128) :
    b.toNat = c.toNat := by
  have hcode : c.toNat = c.val.toNat := rfl
  revert hb
  unfold String.utf8EncodeChar
  dsimp only
  split_ifs with hone htwo hthree
  all_goals simp only [List.mem_cons, List.not_mem_nil, or_false]
  · rintro rfl
    simp only [UInt8.toNat_ofNat']
    omega
  · rintro (rfl | rfl)
    all_goals
      simp only [UInt8.toNat_ofNat'] at hlow ⊢
      omega
  · rintro (rfl | rfl | rfl)
    all_goals
      simp only [UInt8.toNat_ofNat'] at hlow ⊢
      omega
  · rintro (rfl | rfl | rfl | rfl)
    all_goals
      simp only [UInt8.toNat_ofNat'] at hlow ⊢
      omega

theorem not_mem_literal (hb : b.toNat < 128) (hne : b.toNat ≠ c.toNat) :
    b ∉ String.utf8EncodeChar c :=
  fun h => hne (eq_of_low h hb)

theorem length_decoded_le (spelling : Spelling) :
    spelling.decoded.length ≤ (String.utf8EncodeChar spelling.char).length := by
  cases spelling with
  | literal c plain => exact le_rfl
  | named entity => exact le_rfl
  | numeric reference =>
    have hpos := Char.utf8Size_pos reference.char
    simp only [Spelling.decoded, Spelling.char, String.length_utf8EncodeChar]
    split
    · exact hpos
    · exact Nat.zero_le _

theorem decoded_eq_iff :
    spelling.decoded = String.utf8EncodeChar spelling.char ↔ spelling.Short := by
  cases spelling with
  | literal c plain => simp [Spelling.decoded, Spelling.char, Spelling.Short]
  | named entity => simp [Spelling.decoded, Spelling.char, Spelling.Short]
  | numeric reference =>
    have hcode : reference.char.toNat = reference.char.val.toNat := rfl
    simp only [Spelling.decoded, Spelling.char, Spelling.Short]
    constructor
    · intro h
      have hlength := congrArg List.length h
      rw [String.length_utf8EncodeChar] at hlength
      have hpos := Char.utf8Size_pos reference.char
      by_cases hoctet : 0 < reference.char.toNat ∧ reference.char.toNat < 256
      · rw [if_pos hoctet, List.length_singleton] at hlength
        have hone := Char.utf8Size_eq_one_iff.mp hlength.symm
        have hlow : reference.char.val.toNat ≤ 127 := UInt32.le_iff_toNat_le.mp hone
        omega
      · rw [if_neg hoctet, List.length_nil] at hlength
        omega
    · rintro ⟨hpos, hlow⟩
      have hone : reference.char.val.toNat ≤ 0x7f := by omega
      rw [if_pos ⟨hpos, by omega⟩, String.utf8EncodeChar, if_pos hone]
      rfl

theorem xmlUnescape_written : xmlUnescape (spelling.written ++ rest) =
    spelling.decoded ++ xmlUnescape rest := by
  cases spelling with
  | literal c plain =>
    refine xmlUnescape_plain (not_mem_literal (by decide) fun h => plain.1 ?_)
    exact Char.toNat_inj.mp h.symm
  | named entity =>
    rw [Spelling.written, xmlUnescape_entity (separator_not_mem_name entity), xmlEntity_named]
    rfl
  | numeric reference =>
    rw [Spelling.written, xmlUnescape_entity (separator_not_mem_entity reference),
      xmlEntity_reference]

theorem xmlUnescape_data : xmlUnescape data.written = data.decoded := by
  rw [CharacterData.written, CharacterData.decoded]
  induction data with
  | nil => rfl
  | cons spelling data ih => rw [List.flatMap_cons, xmlUnescape_written, ih, List.flatMap_cons]

/-- The octets of a text are those of its characters. -/
theorem octets_text : octets data.text = data.flatMap fun spelling =>
    String.utf8EncodeChar spelling.char := by
  simp [CharacterData.text, octets, List.utf8Encode, List.flatMap_map]

theorem length_decoded_data_le (data : CharacterData) : (data.flatMap Spelling.decoded).length ≤
    (data.flatMap fun spelling => String.utf8EncodeChar spelling.char).length := by
  induction data with
  | nil => rfl
  | cons spelling data ih =>
    rw [List.flatMap_cons, List.flatMap_cons, List.length_append, List.length_append]
    exact Nat.add_le_add (length_decoded_le spelling) ih

/-- Where a character is not read as it is, less is read. -/
theorem decoded_eq_octets_iff : data.decoded = octets data.text ↔ data.Short := by
  rw [octets_text, CharacterData.decoded, CharacterData.Short]
  constructor
  · intro h
    induction data with
    | nil => simp
    | cons spelling data ih =>
      rw [List.flatMap_cons, List.flatMap_cons] at h
      have hlength := congrArg List.length h
      rw [List.length_append, List.length_append] at hlength
      have hfirst := length_decoded_le spelling
      have hothers := length_decoded_data_le data
      obtain ⟨hspelling, hdata⟩ := List.append_inj h (by omega)
      exact List.forall_mem_cons.mpr ⟨decoded_eq_iff.mp hspelling, ih hdata⟩
  · intro h
    exact List.flatMap_congr fun spelling hspelling => decoded_eq_iff.mpr (h spelling hspelling)

end Reading

end FileService.S3
