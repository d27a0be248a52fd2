import FileService.Common.Result
import FileService.Common.Spans

/-!
# Redaction

Rules name what a log must not show. Fields are masked by the names of their
members; free text is searched for the words of the rules, and what stands
behind such a word and a colon or an equals sign is masked up to a character
that may end it. Case and the separators `_` and `-` do not count.
-/
namespace FileService.Logging
open FileService.Common FileService.Common.Spans
open FileService.Common.Json (Value)

def isSeparator (c : Char) : Bool := c = '_' || c = '-'

/-- `Normalize`: every character that is kept, in lower case, with the text behind it. -/
def normalize : List Char → List (Char × List Char)
  | [] => []
  | c :: rest => if isSeparator c then normalize rest else (c.toLower, rest) :: normalize rest

/-- `Normalize(text).norm` -/
def norm (text : List Char) : List Char := (normalize text).map Prod.fst

def isColonValueEnd (c : Char) : Bool := ['\n', '\r', '"', '\'', ',', ';', '\x7d', ']'].contains c

def isEqualsValueEnd (c : Char) : Bool :=
  [' ', '\t', '\n', '\r', '"', '\'', ',', ';', '&', '\x7d', ']', ')'].contains c

def isBlank (c : Char) : Bool := c = ' ' || c = '\t'

def isSign (c : Char) : Bool := c = ':' || c = '='

def isValueEnd (sign : Char) : Char → Bool := if sign = ':' then isColonValueEnd else isEqualsValueEnd

/-! ## The rules -/

/-- `Redactor`: the rules in lower case and without separators, where they are not empty. -/
structure Redactor where
  keys : List (List Char)
  keysNorm : List (List Char)
  minKeyLen : Nat
  mask : List Char := "***".toList
  paired : keys.length = keysNorm.length
  nonempty : ∀ key ∈ keysNorm, key ≠ []
  minKeyLen_le : ∀ key ∈ keysNorm, minKeyLen ≤ key.length

namespace Redactor

/-- The rules that something is left of, as they are shown and as they are matched. -/
def rules (keys : List (List Char)) : List (List Char × List Char) :=
  keys.filterMap fun k =>
    let lower := k.map Char.toLower
    if norm lower = [] then none else some (lower, norm lower)

def shorter (least length : Nat) : Nat := if least = 0 ∨ length < least then length else least

/-- The shortest length is none of them only before the first. -/
theorem foldl_shorter_le (lengths : List Nat) (least : Nat) (h : ∀ n ∈ lengths, 0 < n) :
    (0 < least → lengths.foldl shorter least ≤ least) ∧
      ∀ n ∈ lengths, lengths.foldl shorter least ≤ n := by
  induction lengths generalizing least with
  | nil => simp
  | cons n lengths ih =>
    obtain ⟨hn, hrest⟩ := List.forall_mem_cons.mp h
    have hpos : 0 < shorter least n := by
      unfold shorter
      split_ifs <;> omega
    obtain ⟨hle, hall⟩ := ih (shorter least n) hrest
    have hshort := hle hpos
    have hleast : shorter least n ≤ n := by
      unfold shorter
      split_ifs <;> omega
    refine ⟨fun hzero => hshort.trans ?_, List.forall_mem_cons.mpr ⟨hshort.trans hleast, hall⟩⟩
    unfold shorter
    split_ifs <;> omega

theorem rules_nonempty {keys : List (List Char)} : ∀ rule ∈ rules keys, rule.2 ≠ [] := by
  intro rule hrule
  obtain ⟨k, -, hk⟩ := List.mem_filterMap.mp hrule
  dsimp only at hk
  split_ifs at hk with hempty
  cases hk
  exact hempty

/-- The constructor, with the mask that `set_mask` puts in. -/
def make (keys : List (List Char)) (mask : List Char := "***".toList) : Redactor where
  keys := (rules keys).map Prod.fst
  keysNorm := (rules keys).map Prod.snd
  minKeyLen := ((rules keys).map fun rule => rule.2.length).foldl shorter 0
  mask := mask
  paired := by simp
  nonempty := by simpa using fun key rule h => rules_nonempty (rule, key) h
  minKeyLen_le := by
    have hpos : ∀ n ∈ (rules keys).map fun rule => rule.2.length, 0 < n :=
      List.forall_mem_map.mpr fun rule h => List.length_pos_of_ne_nil (rules_nonempty rule h)
    have hall := List.forall_mem_map.mp (foldl_shorter_le _ 0 hpos).2
    exact List.forall_mem_map.mpr hall

/-- `Matches` -/
def matchesName (r : Redactor) (fieldName : List Char) : Bool :=
  if r.keysNorm = [] ∨ fieldName = [] then false
  else if fieldName.length < r.minKeyLen then false
  else r.keysNorm.any fun key => decide (key <:+: norm fieldName)

/-! ## Free text -/

/-- The searches for a rule, one behind the other: what stands behind each hit. After a hit
the characters of the rule are passed over. -/
def hits (key : List Char) : Nat → List (Char × List Char) → List (List Char)
  | _, [] => []
  | skip + 1, _ :: spots => hits key skip spots
  | 0, spot :: spots =>
    if key <+: (spot :: spots).map Prod.fst then
      ((spot :: spots).getD (key.length - 1) spot).2 :: hits key (key.length - 1) spots
    else hits key 0 spots

def skipQuote : List Char → List Char
  | [] => []
  | c :: rest => if c = '"' then rest else c :: rest

def skipBlanks (text : List Char) : List Char := text.dropWhile isBlank

/-- What stands behind a hit is split into the value and the rest, if there is a sign. -/
def valueIn (after : List Char) : Option (List Char × List Char) :=
  match skipBlanks (skipQuote after) with
  | [] => none
  | sign :: rest =>
    if isSign sign then
      let value := skipQuote (skipBlanks rest)
      some (value.takeWhile (!isValueEnd sign ·), value.dropWhile (!isValueEnd sign ·))
    else none

/-- The values behind the hits of a rule, as spans of the text. -/
def rangesOf (text : List Char) (key : List Char) : List Span :=
  (hits key 0 (normalize text)).filterMap fun after =>
    match valueIn after with
    | none => none
    | some (value, rest) =>
      if value = [] then none
      else some (text.length - (value ++ rest).length, text.length - rest.length)

def ranges (r : Redactor) (text : List Char) : List Span := r.keysNorm.flatMap (rangesOf text)

/-- `ScrubText` -/
def scrubText (r : Redactor) (text : List Char) : List Char :=
  if r.keysNorm = [] ∨ text = [] then text
  else if text.length < r.minKeyLen then text
  else if normalize text = [] then text
  else if r.ranges text = [] then text
  else replaceAll r.mask text (merge (r.ranges text))

/-! ## Fields -/

mutual

/-- `Apply` -/
def apply (r : Redactor) : Value → Value
  | .object members => if r.keys = [] then .object members else .object (applyMembers r members)
  | .array items => if r.keys = [] then .array items else .array (applyItems r items)
  | .string s =>
    if r.keys = [] then .string s else .string (String.ofList (r.scrubText s.toList))
  | v => v

def applyItems (r : Redactor) : List Value → List Value
  | [] => []
  | item :: items => r.apply item :: applyItems r items

def applyMembers (r : Redactor) : List (String × Value) → List (String × Value)
  | [] => []
  | (name, v) :: members =>
    (name, if r.matchesName name.toList then .string (String.ofList r.mask) else r.apply v) ::
      applyMembers r members

end

/-! ## The spans of a text -/

section Ranges
variable {r : Redactor} {text after value rest key : List Char}

theorem length_normalize_le (text : List Char) : (normalize text).length ≤ text.length := by
  induction text with
  | nil => simp [normalize]
  | cons c text ih =>
    rw [normalize]
    split_ifs <;> simp <;> omega

theorem isSuffix_of_mem_normalize {spot : Char × List Char} (h : spot ∈ normalize text) :
    spot.2 <:+ text := by
  induction text with
  | nil => simp [normalize] at h
  | cons c text ih =>
    rw [normalize] at h
    split_ifs at h
    · exact (ih h).trans (List.suffix_cons c text)
    · rcases List.mem_cons.mp h with rfl | h
      · exact List.suffix_cons c text
      · exact (ih h).trans (List.suffix_cons c text)

/-- What stands behind a hit stands behind one of the characters. -/
theorem mem_of_hit {skip : Nat} {spots : List (Char × List Char)} (hkey : key ≠ [])
    (h : after ∈ hits key skip spots) :
    key.length ≤ spots.length ∧ ∃ spot ∈ spots, spot.2 = after := by
  induction spots generalizing skip with
  | nil => cases skip <;> simp [hits] at h
  | cons spot spots ih =>
    have hlater : ∀ {skip}, after ∈ hits key skip spots →
        key.length ≤ (spot :: spots).length ∧ ∃ spot' ∈ spot :: spots, spot'.2 = after := by
      intro skip hskip
      obtain ⟨hle, spot', hmem, heq⟩ := ih hskip
      exact ⟨hle.trans (by simp), spot', List.mem_cons_of_mem _ hmem, heq⟩
    cases skip with
    | succ skip =>
      rw [hits] at h
      exact hlater h
    | zero =>
      rw [hits] at h
      split_ifs at h with hfound
      · rcases List.mem_cons.mp h with rfl | h
        · have hlength := hfound.length_le
          have hpos := List.length_pos_of_ne_nil hkey
          rw [List.length_map] at hlength
          refine ⟨hlength, _, List.getElem_mem (n := key.length - 1) (by omega), ?_⟩
          rw [List.getD_eq_getElem?_getD, List.getElem?_eq_getElem (by omega)]
          rfl
        · exact hlater h
      · exact hlater h

theorem skipQuote_isSuffix (text : List Char) : skipQuote text <:+ text := by
  cases text with
  | nil => exact List.suffix_rfl
  | cons c text =>
    rw [skipQuote]
    split_ifs
    · exact List.suffix_cons c text
    · exact List.suffix_rfl

theorem valueIn_isSuffix (h : valueIn after = some (value, rest)) : value ++ rest <:+ after := by
  have hblanks : ∀ text, skipBlanks text <:+ text := fun text => List.dropWhile_suffix _
  unfold valueIn at h
  split at h
  · cases h
  · rename_i sign behind hbehind
    split_ifs at h
    cases h
    rw [List.takeWhile_append_dropWhile]
    have hfirst := (hblanks (skipQuote after)).trans (skipQuote_isSuffix after)
    rw [hbehind] at hfirst
    exact ((skipQuote_isSuffix _).trans (hblanks behind)).trans
      ((List.suffix_cons sign behind).trans hfirst)

/-- What a rule hits stands in the text, and the values behind are spans of it. -/
theorem mem_rangesOf (hkey : key ≠ []) {s : Span} :
    s ∈ rangesOf text key ↔ ∃ after ∈ hits key 0 (normalize text), ∃ value rest,
      valueIn after = some (value, rest) ∧ value ≠ [] ∧ value ++ rest <:+ text ∧
      s = (text.length - (value ++ rest).length, text.length - rest.length) := by
  unfold rangesOf
  rw [List.mem_filterMap]
  refine exists_congr fun after => and_congr_right fun hhit => ?_
  obtain ⟨-, spot, hspot, rfl⟩ := mem_of_hit hkey hhit
  constructor
  · intro h
    split at h
    · cases h
    · rename_i value rest hvalue
      split_ifs at h with hempty
      cases h
      exact ⟨value, rest, hvalue, hempty,
        (valueIn_isSuffix hvalue).trans (isSuffix_of_mem_normalize hspot), rfl⟩
  · rintro ⟨value, rest, hvalue, hempty, -, rfl⟩
    rw [hvalue]
    dsimp only
    rw [if_neg hempty]

theorem ranges_valid : (∀ s ∈ r.ranges text, s.1 < s.2) ∧ EndBy text.length (r.ranges text) := by
  have hall : ∀ s ∈ r.ranges text, s.1 < s.2 ∧ s.2 ≤ text.length := by
    intro s hs
    obtain ⟨key, hkey, hs⟩ := List.mem_flatMap.mp hs
    obtain ⟨after, -, value, rest, -, hvalue, hsuffix, rfl⟩ :=
      (mem_rangesOf (r.nonempty key hkey)).mp hs
    have hpos := List.length_pos_of_ne_nil hvalue
    have hle := hsuffix.length_le
    rw [List.length_append] at hle ⊢
    dsimp only
    omega
  exact ⟨fun s hs => (hall s hs).1, fun s hs => (hall s hs).2⟩

theorem hits_eq_nil (hkey : key ≠ []) (hshort : (normalize text).length < key.length) :
    hits key 0 (normalize text) = [] := by
  refine List.eq_nil_iff_forall_not_mem.mpr fun after h => ?_
  have := (mem_of_hit hkey h).1
  omega

/-- The early exits change nothing: each covered run of the text becomes one mask. -/
theorem scrubText_eq_draw (r : Redactor) (text : List Char) :
    r.scrubText text = draw r.mask (Covers (r.ranges text)) 0 text := by
  have hnothing : r.ranges text = [] → draw r.mask (Covers (r.ranges text)) 0 text = text := by
    intro h
    refine draw_uncovered fun p _ _ => ?_
    rw [h]
    simp
  have hshort : (∀ key ∈ r.keysNorm, (normalize text).length < key.length) → r.ranges text = [] := by
    intro h
    refine List.flatMap_eq_nil_iff.mpr fun key hkey => ?_
    rw [rangesOf, hits_eq_nil (r.nonempty key hkey) (h key hkey)]
    rfl
  have hle := length_normalize_le text
  unfold scrubText
  split_ifs with hempty hlength hnorm hranges
  · rcases hempty with hkeys | rfl
    · exact (hnothing (by simp [ranges, hkeys])).symm
    · rfl
  · refine (hnothing (hshort fun key hkey => ?_)).symm
    have := r.minKeyLen_le key hkey
    omega
  · refine (hnothing (hshort fun key hkey => ?_)).symm
    have := List.length_pos_of_ne_nil (r.nonempty key hkey)
    rwa [hnorm]
  · exact (hnothing hranges).symm
  · exact replaceAll_merge ranges_valid.1 ranges_valid.2

end Ranges

end Redactor

end FileService.Logging
