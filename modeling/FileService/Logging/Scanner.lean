import FileService.Logging.Redaction

/-!
# The scanner of free text, character by character

The search looks for all hits of a rule first and reads the values behind them
then. The same places are found in one walk over the text that carries, for
every rule, how many characters of a hit are still to come and how far the
values behind the earlier hits have got.
-/
namespace FileService.Logging.Redactor
open FileService.Common.Spans

/-- How far the text behind a hit is read. -/
inductive Stage where
  | hit
  | blanks
  | sign (c : Char)
  | value (c : Char)
deriving DecidableEq

namespace Stage

def next : Stage → Char → Option Stage
  | hit, c => if c = '"' ∨ isBlank c then some blanks else if isSign c then some (sign c) else none
  | blanks, c => if isBlank c then some blanks else if isSign c then some (sign c) else none
  | sign s, c =>
    if isBlank c then some (sign s)
    else if c = '"' then some (value s)
    else if isValueEnd s c then none else some (value s)
  | value s, c => if isValueEnd s c then none else some (value s)

/-- The character belongs to the value. -/
def masks : Stage → Char → Bool
  | hit, _ => false
  | blanks, _ => false
  | sign s, c => !isBlank c && c != '"' && !isValueEnd s c
  | value s, c => !isValueEnd s c

/-- So does the place of the text from which so many characters are left. -/
def masksAt : List Char → Stage → Nat → Prop
  | [], _, _ => False
  | c :: rest, st, left =>
    if left = rest.length + 1 then st.masks c = true
    else ∃ st', st.next c = some st' ∧ masksAt rest st' left

end Stage

/-! ## One value -/

section Value
open Stage
variable {text : List Char} {st : Stage} {left : Nat} {s c : Char}

theorem masksAt_le (h : masksAt text st left) : left ≤ text.length := by
  induction text generalizing st with
  | nil => exact h.elim
  | cons c text ih =>
    rw [masksAt] at h
    split_ifs at h with hfirst
    · exact hfirst.le
    · obtain ⟨st', -, hrest⟩ := h
      exact (ih hrest).trans (by simp)

/-- A character that ends the reading. -/
theorem not_masksAt (hnext : st.next c = none) (hmasks : st.masks c = false) :
    ¬masksAt (c :: text) st left := by
  rw [masksAt]
  split_ifs
  · simp [hmasks]
  · simp [hnext]

/-- A character that is passed over. -/
theorem masksAt_passed {st' : Stage} (hnext : st.next c = some st') (hmasks : st.masks c = false) :
    masksAt (c :: text) st left ↔ masksAt text st' left := by
  rw [masksAt]
  split_ifs with hfirst
  · refine iff_of_false (by simp [hmasks]) fun h => ?_
    have := masksAt_le h
    omega
  · simp [hnext]

/-- A character of the value. -/
theorem masksAt_taken {st' : Stage} (hnext : st.next c = some st') (hmasks : st.masks c = true) :
    masksAt (c :: text) st left ↔ left = text.length + 1 ∨ masksAt text st' left := by
  rw [masksAt]
  split_ifs with hfirst
  · simp [hmasks, hfirst]
  · simp [hnext, hfirst]

theorem masksAt_value :
    masksAt text (value s) left ↔
      (text.dropWhile (!isValueEnd s ·)).length < left ∧ left ≤ text.length := by
  induction text with
  | nil =>
    refine iff_of_false id ?_
    simp only [List.dropWhile_nil, List.length_nil]
    omega
  | cons c text ih =>
    cases hend : isValueEnd s c with
    | true =>
      have hdead : ¬masksAt (c :: text) (value s) left :=
        not_masksAt (by simp [next, hend]) (by simp [masks, hend])
      rw [List.dropWhile_cons_of_neg (by simp [hend])]
      refine iff_of_false hdead ?_
      omega
    | false =>
      have hle := (List.dropWhile_suffix (l := text) (!isValueEnd s ·)).length_le
      have htaken : masksAt (c :: text) (value s) left ↔
          left = text.length + 1 ∨ masksAt text (value s) left :=
        masksAt_taken (by simp [next, hend]) (by simp [masks, hend])
      rw [List.dropWhile_cons_of_pos (by simp [hend]), htaken, ih, List.length_cons]
      omega

theorem skipBlanks_blank (hblank : isBlank c = true) : skipBlanks (c :: text) = skipBlanks text :=
  List.dropWhile_cons_of_pos hblank

theorem skipBlanks_of_not (hblank : isBlank c = false) : skipBlanks (c :: text) = c :: text :=
  List.dropWhile_cons_of_neg (by simp [hblank])

theorem masksAt_sign :
    masksAt text (sign s) left ↔
      ((skipQuote (skipBlanks text)).dropWhile (!isValueEnd s ·)).length < left ∧
        left ≤ (skipQuote (skipBlanks text)).length := by
  induction text with
  | nil =>
    refine iff_of_false id ?_
    simp only [skipBlanks, skipQuote, List.dropWhile_nil, List.length_nil]
    omega
  | cons c text ih =>
    cases hblank : isBlank c with
    | true =>
      have hpassed : masksAt (c :: text) (sign s) left ↔ masksAt text (sign s) left :=
        masksAt_passed (by simp [next, hblank]) (by simp [masks, hblank])
      rw [skipBlanks_blank hblank, hpassed, ih]
    | false =>
      rw [skipBlanks_of_not hblank, skipQuote]
      by_cases hquote : c = '"'
      · have hpassed : masksAt (c :: text) (sign s) left ↔ masksAt text (value s) left :=
          masksAt_passed (by rw [hquote]; rfl) (by simp [masks, hquote])
        rw [if_pos hquote, hpassed, masksAt_value]
      · have hsame : masksAt (c :: text) (sign s) left ↔ masksAt (c :: text) (value s) left := by
          simp [masksAt, next, masks, hblank, hquote]
        rw [if_neg hquote, hsame, masksAt_value]

theorem masksAt_blanks :
    masksAt text blanks left ↔ ∃ c rest, skipBlanks text = c :: rest ∧ isSign c = true ∧
      masksAt rest (sign c) left := by
  induction text with
  | nil => simp [masksAt, skipBlanks]
  | cons c text ih =>
    cases hblank : isBlank c with
    | true =>
      have hpassed : masksAt (c :: text) blanks left ↔ masksAt text blanks left :=
        masksAt_passed (by simp [next, hblank]) rfl
      rw [skipBlanks_blank hblank, hpassed, ih]
    | false =>
      rw [skipBlanks_of_not hblank]
      by_cases hsign : isSign c = true
      · have hpassed : masksAt (c :: text) blanks left ↔ masksAt text (sign c) left :=
          masksAt_passed (by simp [next, hblank, hsign]) rfl
        rw [hpassed]
        constructor
        · intro h
          exact ⟨c, text, rfl, hsign, h⟩
        · rintro ⟨c', rest, heq, -, h⟩
          cases heq
          exact h
      · have hdead : ¬masksAt (c :: text) blanks left :=
          not_masksAt (by simp [next, hblank, hsign]) rfl
        refine iff_of_false hdead ?_
        rintro ⟨c', rest, heq, hsign', -⟩
        cases heq
        exact hsign hsign'

theorem masksAt_skipQuote : masksAt text hit left ↔ masksAt (skipQuote text) blanks left := by
  cases text with
  | nil => rfl
  | cons c text =>
    rw [skipQuote]
    split_ifs with hquote
    · exact masksAt_passed (by simp [next, hquote]) rfl
    · simp [masksAt, next, masks, hquote]

/-- The stages read a value where the search does. -/
theorem masksAt_hit :
    masksAt text hit left ↔ ∃ value rest, valueIn text = some (value, rest) ∧
      rest.length < left ∧ left ≤ (value ++ rest).length := by
  rw [masksAt_skipQuote, masksAt_blanks]
  unfold valueIn
  constructor
  · rintro ⟨c, rest, hbehind, hsign, hrest⟩
    rw [hbehind]
    dsimp only
    rw [if_pos hsign]
    refine ⟨_, _, rfl, ?_⟩
    rw [List.takeWhile_append_dropWhile]
    exact masksAt_sign.mp hrest
  · rintro ⟨value, rest, hvalue, hleft⟩
    split at hvalue
    · cases hvalue
    · rename_i c behind hbehind
      split_ifs at hvalue with hsign
      cases hvalue
      rw [List.takeWhile_append_dropWhile] at hleft
      exact ⟨c, behind, hbehind, hsign, masksAt_sign.mpr hleft⟩

end Value

/-! ## One rule -/

/-- Where the walk is for one rule: how many characters of a hit are to come, and how far the
values behind earlier hits are read. -/
structure Scan where
  left : Nat := 0
  stages : List Stage := []

/-- How many characters of a hit there are from here on, this one included. -/
def pending (key : List Char) (left : Nat) (text : List Char) : Nat :=
  if left = 0 then if key <+: norm text then key.length else 0 else left

def Scan.step (key : List Char) (scan : Scan) (c : Char) (rest : List Char) : Scan :=
  let stages := scan.stages.filterMap (·.next c)
  if isSeparator c then { scan with stages }
  else
    { left := pending key scan.left (c :: rest) - 1
      stages := if pending key scan.left (c :: rest) = 1 then .hit :: stages else stages }

/-- Some value masks the place from which so many characters are left. -/
def maskedAt (key : List Char) : List Char → Scan → Nat → Prop
  | [], _, _ => False
  | c :: rest, scan, left =>
    if left = rest.length + 1 then ∃ st ∈ scan.stages, st.masks c = true
    else maskedAt key rest (scan.step key c rest) left

/-- What stands behind the hits, in the order of the walk. -/
def afters (key : List Char) : Nat → List Char → List (List Char)
  | _, [] => []
  | left, c :: rest =>
    if isSeparator c then afters key left rest
    else
      (if pending key left (c :: rest) = 1 then [rest] else []) ++
        afters key (pending key left (c :: rest) - 1) rest

section Rule
open Stage
variable {key text after : List Char} {scan : Scan} {left : Nat}

theorem afters_isSuffix (h : after ∈ afters key left text) : after <:+ text := by
  induction text generalizing left with
  | nil => simp [afters] at h
  | cons c text ih =>
    have hcons := List.suffix_cons c text
    rw [afters] at h
    split_ifs at h
    · exact (ih h).trans hcons
    · rcases List.mem_cons.mp h with rfl | h
      · exact hcons
      · exact (ih h).trans hcons
    · exact (ih h).trans hcons

/-- The walk finds the values that the stages have begun and those behind the hits to come. -/
theorem maskedAt_iff :
    maskedAt key text scan left ↔ (∃ st ∈ scan.stages, masksAt text st left) ∨
      ∃ after ∈ afters key scan.left text, masksAt after hit left := by
  induction text generalizing scan with
  | nil => simp [maskedAt, masksAt, afters]
  | cons c text ih =>
    by_cases hfirst : left = text.length + 1
    · have hlater : ¬∃ after ∈ afters key scan.left (c :: text), masksAt after hit left := by
        rintro ⟨after, hafter, hmasks⟩
        have hle := masksAt_le hmasks
        rw [afters] at hafter
        split_ifs at hafter
        · have := (afters_isSuffix hafter).length_le
          omega
        · rcases List.mem_cons.mp hafter with rfl | hafter
          · omega
          · have := (afters_isSuffix hafter).length_le
            omega
        · have := (afters_isSuffix hafter).length_le
          omega
      rw [or_iff_left hlater]
      simp only [maskedAt, masksAt, if_pos hfirst]
    · have hbegun : (∃ st ∈ scan.stages, masksAt (c :: text) st left) ↔
          ∃ st ∈ scan.stages.filterMap (·.next c), masksAt text st left := by
        simp only [masksAt, if_neg hfirst, List.mem_filterMap]
        constructor
        · rintro ⟨st, hst, st', hnext, hmasks⟩
          exact ⟨st', ⟨st, hst, hnext⟩, hmasks⟩
        · rintro ⟨st', ⟨st, hst, hnext⟩, hmasks⟩
          exact ⟨st, hst, st', hnext, hmasks⟩
      rw [maskedAt, if_neg hfirst, ih, hbegun, Scan.step, afters]
      split_ifs
      · rfl
      · simp [or_and_right, exists_or, or_assoc, or_left_comm]
      · simp

/-- The hits of the search are those of the walk. -/
theorem mem_afters (hkey : key ≠ []) :
    after ∈ afters key left text ↔ after ∈ hits key left (normalize text) ∨
      (0 < left ∧ ∃ spot, (normalize text)[left - 1]? = some spot ∧ spot.2 = after) := by
  induction text generalizing left with
  | nil => cases left <;> simp [afters, normalize, hits]
  | cons c text ih =>
    have hpos := List.length_pos_of_ne_nil hkey
    rw [afters, normalize]
    by_cases hsep : isSeparator c = true
    · rw [if_pos hsep, if_pos hsep, ih]
    · rw [if_neg hsep, if_neg hsep]
      have hnorm : norm (c :: text) = ((c.toLower, text) :: normalize text).map Prod.fst := by
        rw [norm, normalize, if_neg hsep]
      cases left with
      | succ n =>
        have hleft : pending key (n + 1) (c :: text) = n + 1 := by simp [pending]
        rw [hleft, Nat.add_sub_cancel, hits, List.mem_append, ih]
        cases n with
        | zero => simp [eq_comm, or_comm]
        | succ n => simp
      | zero =>
        have hnorm : norm (c :: text) = ((c.toLower, text) :: normalize text).map Prod.fst := by
          rw [norm, normalize, if_neg hsep]
        rw [hits, ← hnorm]
        by_cases hfound : key <+: norm (c :: text)
        · have hleft : pending key 0 (c :: text) = key.length := by simp [pending, hfound]
          have hlength := hfound.length_le
          rw [hnorm, List.length_map, List.length_cons] at hlength
          rw [hleft, if_pos hfound, List.mem_append, ih, List.mem_cons]
          generalize key.length = n at *
          obtain ⟨n, rfl⟩ : ∃ k, n = k + 1 := ⟨n - 1, by omega⟩
          cases n with
          | zero => simp
          | succ n =>
            obtain ⟨spot, hspot⟩ : ∃ spot, (normalize text)[n]? = some spot :=
              ⟨_, List.getElem?_eq_getElem (by omega)⟩
            simp [List.getD_eq_getElem?_getD, hspot, eq_comm, or_comm]
        · have hleft : pending key 0 (c :: text) = 0 := by simp [pending, hfound]
          rw [hleft, if_neg hfound, List.mem_append, ih]
          simp

/-- The spans of a rule cover the places that the walk masks. -/
theorem covers_rangesOf (hkey : key ≠ []) {p : Nat} (hp : p < text.length) :
    Covers (rangesOf text key) p ↔ maskedAt key text {} (text.length - p) := by
  have hhits : ∀ after, after ∈ afters key 0 text ↔ after ∈ hits key 0 (normalize text) := by
    simp [mem_afters hkey]
  rw [maskedAt_iff]
  simp only [List.not_mem_nil, false_and, exists_false, false_or, hhits, masksAt_hit]
  constructor
  · rintro ⟨s, hs, hfrom, hto⟩
    obtain ⟨after, hafter, value, rest, hvalue, -, hsuffix, rfl⟩ := (mem_rangesOf hkey).mp hs
    have hle := hsuffix.length_le
    dsimp only at hfrom hto
    exact ⟨after, hafter, value, rest, hvalue, by omega, by omega⟩
  · rintro ⟨after, hafter, value, rest, hvalue, hfrom, hto⟩
    obtain ⟨-, spot, hspot, rfl⟩ := mem_of_hit hkey hafter
    have hsuffix := (valueIn_isSuffix hvalue).trans (isSuffix_of_mem_normalize hspot)
    have hne : value ≠ [] := by
      rintro rfl
      simp only [List.nil_append] at hto
      omega
    refine ⟨_, (mem_rangesOf hkey).mpr ⟨_, hafter, value, rest, hvalue, hne, hsuffix, rfl⟩, ?_, ?_⟩
    · dsimp only
      omega
    · dsimp only
      omega

end Rule

/-! ## All rules -/

/-- Where the walk is for each rule. -/
abbrev Walk := List Char → Scan

def Walk.step (walk : Walk) (c : Char) (rest : List Char) : Walk :=
  fun key => (walk key).step key c rest

/-- A value behind a hit of some rule takes the character. -/
def Masked (keys : List (List Char)) (walk : Walk) (c : Char) : Prop :=
  ∃ key ∈ keys, ∃ st ∈ (walk key).stages, st.masks c = true

instance (keys : List (List Char)) (walk : Walk) (c : Char) : Decidable (Masked keys walk c) :=
  inferInstanceAs (Decidable (∃ _ ∈ _, ∃ _ ∈ _, _))

/-- The text from here on, with a mask where a masked run starts; `inside` says that the
character before is masked. -/
def redraw (keys : List (List Char)) (mask : List Char) : List Char → Walk → Bool → List Char
  | [], _, _ => []
  | c :: rest, walk, inside =>
    (if Masked keys walk c then if inside then [] else mask else [c]) ++
      redraw keys mask rest (walk.step c rest) (decide (Masked keys walk c))

section Rules
variable {r : Redactor} {keys : List (List Char)} {mask text : List Char} {walk : Walk}
  {inside : Bool} {covered : Nat → Prop} [DecidablePred covered] {i : Nat}

theorem draw_eq_redraw (hlast : inside = true ↔ 0 < i ∧ covered (i - 1))
    (h : ∀ p, i ≤ p → p < i + text.length →
      (covered p ↔ ∃ key ∈ keys, maskedAt key text (walk key) (i + text.length - p))) :
    draw mask covered i text = redraw keys mask text walk inside := by
  induction text generalizing i walk inside with
  | nil => rfl
  | cons c text ih =>
    have hhere : covered i ↔ Masked keys walk c := by
      rw [h i le_rfl (by simp)]
      simp [maskedAt, Masked]
    have hrest : draw mask covered (i + 1) text =
        redraw keys mask text (walk.step c text) (decide (Masked keys walk c)) :=
      ih (by simp [hhere]) fun p hp hlt => by
        have hlater : ¬i + (c :: text).length - p = text.length + 1 := by
          simp only [List.length_cons]
          omega
        have hsame : i + 1 + text.length - p = i + (c :: text).length - p := by
          simp only [List.length_cons]
          omega
        rw [h p (by omega) (by simp only [List.length_cons]; omega), hsame]
        simp only [maskedAt, if_neg hlater, Walk.step]
    rw [draw, redraw, hrest]
    simp only [hhere, ← hlast]

theorem covers_ranges {p : Nat} (hp : p < text.length) :
    Covers (r.ranges text) p ↔ ∃ key ∈ r.keysNorm, maskedAt key text {} (text.length - p) := by
  have hcovers : Covers (r.ranges text) p ↔ ∃ key ∈ r.keysNorm, Covers (rangesOf text key) p := by
    unfold Covers ranges
    constructor
    · rintro ⟨s, hs, hplace⟩
      obtain ⟨key, hkey, hs⟩ := List.mem_flatMap.mp hs
      exact ⟨key, hkey, s, hs, hplace⟩
    · rintro ⟨key, hkey, s, hs, hplace⟩
      exact ⟨s, List.mem_flatMap.mpr ⟨key, hkey, hs⟩, hplace⟩
  rw [hcovers]
  exact exists_congr fun key => and_congr_right fun hkey => covers_rangesOf (r.nonempty key hkey) hp

/-- One walk over the text does what the search, the sorting and the replacements do. -/
theorem scrubText_eq_redraw (r : Redactor) (text : List Char) :
    r.scrubText text = redraw r.keysNorm r.mask text (fun _ => {}) false := by
  rw [scrubText_eq_draw]
  refine draw_eq_redraw (by simp) fun p _ hp => ?_
  rw [Nat.zero_add] at hp ⊢
  exact covers_ranges hp

end Rules

end FileService.Logging.Redactor
