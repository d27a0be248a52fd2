import Mathlib.Data.List.Forall2
import Mathlib.Tactic
import FileService.Common.Percent

/-!
# Well-formed octet sequences

The table of well-formed UTF-8 sequences gives a range for each octet. Where no
well-formed sequence starts, the longest part that could still become one is
read as one replacement character.
-/
namespace FileService.Common.Utf8

/-- The least and the greatest octet of a place in a row. -/
abbrev Range := UInt8 × UInt8

def InRange (r : Range) (b : UInt8) : Prop := r.1 ≤ b ∧ b ≤ r.2

instance (r : Range) (b : UInt8) : Decidable (InRange r b) := inferInstanceAs (Decidable (_ ∧ _))

/-- Table 3-7: a row for each kind of first octet. -/
def table : List (List Range) :=
  [[(0x00, 0x7F)],
    [(0xC2, 0xDF), (0x80, 0xBF)],
    [(0xE0, 0xE0), (0xA0, 0xBF), (0x80, 0xBF)],
    [(0xE1, 0xEC), (0x80, 0xBF), (0x80, 0xBF)],
    [(0xED, 0xED), (0x80, 0x9F), (0x80, 0xBF)],
    [(0xEE, 0xEF), (0x80, 0xBF), (0x80, 0xBF)],
    [(0xF0, 0xF0), (0x90, 0xBF), (0x80, 0xBF), (0x80, 0xBF)],
    [(0xF1, 0xF3), (0x80, 0xBF), (0x80, 0xBF), (0x80, 0xBF)],
    [(0xF4, 0xF4), (0x80, 0x8F), (0x80, 0xBF), (0x80, 0xBF)]]

abbrev Octets := List UInt8

/-- The sequence of one character. -/
def IsChar (l : Octets) : Prop := ∃ row ∈ table, List.Forall₂ InRange row l

def WellFormed (l : Octets) : Prop := ∃ chars : List Octets, l = chars.flatten ∧ ∀ c ∈ chars, IsChar c

/-- The front of the sequence of a character. -/
def IsFront (l : Octets) : Prop := ∃ rest, IsChar (l ++ rest)

/-- The longest front that starts where no character does; it has one octet at least. -/
structure MaximalSubpart (part s : Octets) : Prop where
  initial : part <+: s
  unconvertible : ∀ c, c <+: s → ¬IsChar c
  front : IsFront part ∨ part.length = 1
  nonempty : part ≠ []
  longest : ∀ longer, longer <+: s → part.length < longer.length → ¬IsFront longer

/-- U+FFFD -/
def replacement : Octets := [0xEF, 0xBF, 0xBD]

/-- The text with every maximal subpart replaced. -/
inductive Replaced : Octets → Octets → Prop
  | nil : Replaced [] []
  | char {c s v : Octets} (hc : IsChar c) (h : Replaced s v) : Replaced (c ++ s) (c ++ v)
  | part {p s v : Octets} (hp : MaximalSubpart p (p ++ s)) (h : Replaced s v) :
    Replaced (p ++ s) (replacement ++ v)

/-! ## Rows -/

section Rows
variable {row row' : List Range} {l l' : Octets} {b : UInt8}

/-- The first octet tells the row. -/
theorem row_unique : ∀ row ∈ table, ∀ row' ∈ table,
    (∀ r ∈ row.head?, ∀ r' ∈ row'.head?, r.1 ≤ r'.2 ∧ r'.1 ≤ r.2) → row = row' := by
  have hall : (table.all fun row => table.all fun row' => decide (row = row') ||
      row.head?.any fun r => row'.head?.any fun r' => !decide (r.1 ≤ r'.2 ∧ r'.1 ≤ r.2)) = true := by
    decide
  simp only [List.all_eq_true, Bool.or_eq_true, decide_eq_true_eq, Option.any_eq_true,
    Bool.not_eq_true', decide_eq_false_iff_not] at hall
  intro row hrow row' hrow' h
  rcases hall row hrow row' hrow' with heq | ⟨r, hr, r', hr', hapart⟩
  · exact heq
  · exact absurd (h r hr r' hr') hapart

theorem row_ne_nil : ∀ row ∈ table, row ≠ [] := by decide

theorem IsChar.ne_nil (h : IsChar l) : l ≠ [] := by
  obtain ⟨row, hrow, hmatch⟩ := h
  rintro rfl
  exact row_ne_nil row hrow (List.forall₂_nil_right_iff.mp hmatch)

theorem eq_of_matches (hrow : row ∈ table) (hrow' : row' ∈ table)
    (h : List.Forall₂ InRange row (b :: l)) (h' : List.Forall₂ InRange row' (b :: l')) : row = row' := by
  obtain ⟨r, rest, hr, -, rfl⟩ := List.forall₂_cons_right_iff.mp h
  obtain ⟨r', rest', hr', -, rfl⟩ := List.forall₂_cons_right_iff.mp h'
  refine row_unique _ hrow _ hrow' ?_
  rintro _ ⟨⟩ _ ⟨⟩
  exact ⟨UInt8.le_trans hr.1 hr'.2, UInt8.le_trans hr'.1 hr.2⟩

/-- No sequence of a character is the front of another one. -/
theorem IsChar.eq_of_prefix (h : IsChar l) (h' : IsChar l') (hinitial : l <+: l') : l = l' := by
  obtain ⟨row, hrow, hmatch⟩ := h
  obtain ⟨row', hrow', hmatch'⟩ := h'
  cases l with
  | nil => exact absurd (List.forall₂_nil_right_iff.mp hmatch) (row_ne_nil row hrow)
  | cons b l =>
    obtain ⟨rest, rfl⟩ := hinitial
    have hsame := eq_of_matches hrow hrow' hmatch hmatch'
    have hlength := hmatch.length_eq.symm.trans (hsame ▸ hmatch'.length_eq)
    have hrest : rest = [] := by
      rw [List.length_append] at hlength
      exact List.length_eq_zero_iff.mp (by omega)
    rw [hrest, List.append_nil]

end Rows

/-! ## Well-formed texts -/

section WellFormed
variable {l l' : Octets}

theorem IsChar.wellFormed (h : IsChar l) : WellFormed l := ⟨[l], by simp, by simpa using h⟩

theorem WellFormed.append (h : WellFormed l) (h' : WellFormed l') : WellFormed (l ++ l') := by
  obtain ⟨chars, rfl, hchars⟩ := h
  obtain ⟨chars', rfl, hchars'⟩ := h'
  refine ⟨chars ++ chars', by simp, ?_⟩
  intro c hc
  exact (List.mem_append.mp hc).elim (hchars c) (hchars' c)

theorem isChar_ascii {b : UInt8} (h : b ≤ 0x7F) : IsChar [b] :=
  ⟨[(0x00, 0x7F)], by decide, by simpa [InRange] using h⟩

theorem wellFormed_ascii (h : ∀ b ∈ l, b ≤ 0x7F) : WellFormed l := by
  induction l with
  | nil => exact ⟨[], rfl, by simp⟩
  | cons b l ih =>
    have hrest := ih fun c hc => h c (List.mem_cons_of_mem _ hc)
    exact (isChar_ascii (h b List.mem_cons_self)).wellFormed.append hrest

end WellFormed

/-! ## The replaced text -/

section Replaced
variable {p q s v w : Octets}

theorem MaximalSubpart.eq (hp : MaximalSubpart p s) (hq : MaximalSubpart q s) : p = q := by
  have hnot : ∀ {a b : Octets}, MaximalSubpart a s → MaximalSubpart b s → ¬a.length < b.length := by
    intro a b ha hb hlt
    rcases hb.front with hfront | hone
    · exact ha.longest b hb.initial hlt hfront
    · have hpos := List.length_pos_of_ne_nil ha.nonempty
      omega
  have hlength : p.length = q.length := le_antisymm (not_lt.mp (hnot hq hp)) (not_lt.mp (hnot hp hq))
  exact (List.prefix_of_prefix_length_le hp.initial hq.initial hlength.le).eq_of_length hlength

/-- There is one way only to replace what is not well formed. -/
theorem Replaced.unique (hv : Replaced s v) (hw : Replaced s w) : v = w := by
  induction hv generalizing w with
  | nil =>
    generalize hs : ([] : Octets) = s at hw
    cases hw with
    | nil => rfl
    | char hc _ => exact absurd (List.append_eq_nil_iff.mp hs.symm).1 hc.ne_nil
    | part hp _ => exact absurd (List.append_eq_nil_iff.mp hs.symm).1 hp.nonempty
  | @char c s v hc _ ih =>
    generalize hs : c ++ s = whole at hw
    cases hw with
    | nil => exact absurd (List.append_eq_nil_iff.mp hs).1 hc.ne_nil
    | @char c' s' v' hc' h' =>
      have hsame : c = c' := by
        rcases List.prefix_or_prefix_of_prefix (List.prefix_append c s)
          (hs ▸ List.prefix_append c' s') with hinitial | hinitial
        · exact hc.eq_of_prefix hc' hinitial
        · exact (hc'.eq_of_prefix hc hinitial).symm
      subst hsame
      rw [ih (List.append_cancel_left hs ▸ h')]
    | @part p s' v' hp h' => exact absurd hc (hp.unconvertible c (hs ▸ List.prefix_append c s))
  | @part p s v hp _ ih =>
    generalize hs : p ++ s = whole at hw hp
    cases hw with
    | nil => exact absurd (List.append_eq_nil_iff.mp hs).1 hp.nonempty
    | @char c s' v' hc h' => exact absurd hc (hp.unconvertible c (List.prefix_append c s'))
    | @part q s' v' hq h' =>
      have hsame := hp.eq hq
      subst hsame
      rw [ih (List.append_cancel_left hs ▸ h')]

end Replaced

end FileService.Common.Utf8

/-!
## Reading JSON strings

A string token stands between quotation marks. Escapes are read as the octets of
the characters they name; a raw control character or quotation mark, an unknown
escape and half of a surrogate pair make the token invalid.
-/
namespace FileService.Common.StringToken
open FileService.Common.Percent (hexDigit?)
open FileService.Common.Utf8

/-- The code unit of four hexadecimal digits. -/
def codeUnit? (a b c d : UInt8) : Option Nat :=
  match hexDigit? a, hexDigit? b, hexDigit? c, hexDigit? d with
  | some a, some b, some c, some d => some (4096 * a + 256 * b + 16 * c + d)
  | _, _, _, _ => none

/-- The octets of a code point. -/
def encoded (n : Nat) : Octets := String.utf8EncodeChar (Char.ofNat n)

/-- The escapes of two characters. -/
def shortEscape? (c : UInt8) : Option UInt8 :=
  if c = 34 ∨ c = 92 ∨ c = 47 then some c
  else if c = 98 then some 8
  else if c = 102 then some 12
  else if c = 110 then some 10
  else if c = 114 then some 13
  else if c = 116 then some 9
  else none

/-- The octets that the text inside the quotation marks stands for. -/
def unescaped? : Octets → Option Octets
  | [] => some []
  | c :: rest =>
    if c = 92 then
      match rest with
      | [] => none
      | e :: rest =>
        if e = 117 then
          match rest with
          | a :: b :: c :: d :: rest =>
            match codeUnit? a b c d with
            | none => none
            | some unit =>
              if 0xD800 ≤ unit ∧ unit ≤ 0xDBFF then
                match rest with
                | 92 :: 117 :: a :: b :: c :: d :: rest =>
                  match codeUnit? a b c d with
                  | none => none
                  | some low =>
                    if 0xDC00 ≤ low ∧ low ≤ 0xDFFF then
                      (unescaped? rest).map
                        (encoded (0x10000 + 1024 * (unit - 0xD800) + (low - 0xDC00)) ++ ·)
                    else none
                | _ => none
              else if 0xDC00 ≤ unit ∧ unit ≤ 0xDFFF then none
              else (unescaped? rest).map (encoded unit ++ ·)
          | _ => none
        else
          match shortEscape? e with
          | some octet => (unescaped? rest).map (octet :: ·)
          | none => none
    else if c = 34 ∨ c < 32 then none
    else (unescaped? rest).map (c :: ·)

/-- The value of a whole token. -/
def stringValue? : Octets → Option Octets
  | [] => none
  | c :: rest => if c = 34 ∧ rest.getLast? = some 34 then unescaped? rest.dropLast else none

section Reading
variable {text rest value : Octets} {c e : UInt8}

theorem stringValue?_quoted (body : Octets) : stringValue? (34 :: body ++ [34]) = unescaped? body := by
  rw [List.cons_append, stringValue?, if_pos ⟨rfl, by simp⟩, List.dropLast_concat]

theorem unescaped?_plain (hescape : c ≠ 92) (hquote : c ≠ 34) (hcontrol : ¬c < 32) :
    unescaped? (c :: rest) = (unescaped? rest).map (c :: ·) := by
  rw [unescaped?.eq_def]
  dsimp only
  rw [if_neg hescape, if_neg (not_or.mpr ⟨hquote, hcontrol⟩)]

/-- Octets above the ASCII ones stand for themselves. -/
theorem unescaped?_high (h : ∀ c ∈ text, 0x80 ≤ c) :
    unescaped? (text ++ rest) = (unescaped? rest).map (text ++ ·) := by
  induction text with
  | nil => simp
  | cons c text ih =>
    have hc : 0x80 ≤ c.toNat := UInt8.le_iff_toNat_le.mp (h c List.mem_cons_self)
    have hne : ∀ d : UInt8, d.toNat < 0x80 → c ≠ d := by
      rintro d hd rfl
      omega
    have hcontrol : ¬c < 32 := by
      rw [UInt8.lt_iff_toNat_lt]
      exact not_lt.mpr (le_trans (by decide) hc)
    rw [List.cons_append, unescaped?_plain (hne 92 (by decide)) (hne 34 (by decide)) hcontrol,
      ih fun d hd => h d (List.mem_cons_of_mem _ hd), Option.map_map]
    rfl

theorem unescaped?_short (hunit : e ≠ 117) (hshort : shortEscape? e = some c) :
    unescaped? (92 :: e :: rest) = (unescaped? rest).map (c :: ·) := by
  rw [unescaped?.eq_def]
  dsimp only
  rw [if_pos rfl, if_neg hunit, hshort]

theorem unescaped?_unit {a b c d : UInt8} {unit : Nat} (hunit : codeUnit? a b c d = some unit)
    (hplain : unit < 0xD800) :
    unescaped? (92 :: 117 :: a :: b :: c :: d :: rest) = (unescaped? rest).map (encoded unit ++ ·) := by
  rw [unescaped?.eq_def]
  dsimp only
  rw [if_pos rfl, if_pos rfl, hunit]
  dsimp only
  rw [if_neg (by omega), if_neg (by omega)]

end Reading

end FileService.Common.StringToken
