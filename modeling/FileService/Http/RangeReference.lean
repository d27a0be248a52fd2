import FileService.Common.Delimited
import FileService.Http.Ranges
import Mathlib

/-!
# What a `Range` header says

A set in bytes is split at its commas, and empty elements do not count. It is
malformed if there are none or too many, if one of them is no range, or if one
asks for the end of an object of unknown length; then it is the list of the
ranges that meet the object.
-/
namespace FileService.Http
open FileService.Common.Delimited

/-! ## The reference -/

/-- A result without its explanation. -/
inductive RangeOutcome where
  | absent
  | single (range : ByteRange)
  | multiple (ranges : List ByteRange)
  | unsatisfiable
  | malformed
deriving DecidableEq, Repr

def RangeResult.outcome : RangeResult → RangeOutcome
  | .absent => .absent
  | .single r => .single r
  | .multiple rs => .multiple rs
  | .unsatisfiable _ => .unsatisfiable
  | .malformed _ => .malformed

def RangeResult.ranges : RangeResult → List ByteRange
  | .single r => [r]
  | .multiple rs => rs
  | _ => []

inductive RangeElement where
  | suffix (length : Nat)
  | startingAt (first : Nat)
  | between (first last : Nat)
deriving DecidableEq, Repr

/-- A decimal number below 2 to the 63. -/
def number? (s : List Char) : Option Nat :=
  if s ≠ [] ∧ (∀ c ∈ s, isDigit c = true) ∧ digitsValue s < 2 ^ 63 then some (digitsValue s) else none

/-- `first-last`, `first-` or `-suffix`. -/
def element? (spec : List Char) : Option RangeElement :=
  if '-' ∉ spec then none
  else
    match trim (cut '-' spec).1, trim (cut '-' spec).2 with
    | [], [] => none
    | [], suffix => (number? suffix).map .suffix
    | first, [] => (number? first).map .startingAt
    | first, last => do
      let first ← number? first
      let last ← number? last
      if last < first then none else some (.between first last)

/-- What an element covers of an object, or of one of unknown length. -/
def RangeElement.meets (total : Int) : RangeElement → Option ByteRange
  | .suffix length => if length = 0 ∨ total ≤ 0 then none else some ⟨max 0 (total - length), total - 1⟩
  | .startingAt first =>
    if total < 0 then some ⟨first, int64Max⟩
    else if (first : Int) < total then some ⟨first, total - 1⟩ else none
  | .between first last =>
    if total < 0 then some ⟨first, last⟩
    else if (first : Int) < total then some ⟨first, min last (total - 1)⟩ else none

/-- It asks for the end of an object of unknown length. -/
def RangeElement.needsTotal (total : Int) : RangeElement → Bool
  | .suffix length => decide (length ≠ 0) && decide (total < 0)
  | _ => false

/-- The set of a header in bytes. -/
def rangeSet? (header : List Char) : Option (List Char) :=
  if '=' ∈ header ∧ (trim (cut '=' header).1).map Char.toLower = "bytes".toList then
    some (trim (cut '=' header).2)
  else none

def elementTexts (set : List Char) : List (List Char) :=
  ((set.splitOn ',').map trim).filter (· ≠ [])

def ofRanges : List ByteRange → RangeOutcome
  | [] => .unsatisfiable
  | [r] => .single r
  | rs => .multiple rs

/-- The outcome of the elements of a set. -/
def referenceOf (texts : List (List Char)) (total : Int) : RangeOutcome :=
  if texts = [] ∨ 32 < texts.length then .malformed
  else
    match texts.mapM element? with
    | none => .malformed
    | some elements =>
      if elements.any (·.needsTotal total) then .malformed
      else ofRanges (elements.filterMap (·.meets total))

def reference (header : String) (total : Int) : RangeOutcome :=
  if trim header.toList = [] then .absent
  else
    match rangeSet? (trim header.toList) with
    | none => .malformed
    | some set => referenceOf (elementTexts set) total

/-! ## Elements -/

section Elements
variable {total : Int} {spec s : List Char}

theorem idxOf?_eq (c : Char) (s : List Char) :
    (s.idxOf? c = none ∧ c ∉ s) ∨
      ∃ i, s.idxOf? c = some i ∧ c ∈ s ∧ s.take i = (cut c s).1 ∧ s.drop (i + 1) = (cut c s).2 := by
  induction s with
  | nil => exact .inl ⟨rfl, by simp⟩
  | cons d s ih =>
    rw [List.idxOf?_cons, cut]
    by_cases hd : d = c
    · rw [if_pos (by simpa using hd), if_pos hd]
      exact .inr ⟨0, rfl, by simp [hd], rfl, rfl⟩
    · rw [if_neg (by simpa using hd), if_neg hd]
      rcases ih with ⟨hnone, hmem⟩ | ⟨i, hsome, hmem, htake, hdrop⟩
      · exact .inl ⟨by rw [hnone]; rfl, by simp [hmem, Ne.symm hd]⟩
      · refine .inr ⟨i + 1, by rw [hsome]; rfl, by simp [hmem], ?_, hdrop⟩
        rw [List.take_succ_cons, htake]

theorem parseUint64_eq (s : List Char) : parseUint64 s = (number? s).map Int.ofNat := by
  unfold parseUint64 number?
  by_cases hgood : s ≠ [] ∧ (∀ c ∈ s, isDigit c = true) ∧ digitsValue s < 2 ^ 63
  · obtain ⟨hne, hdigits, hlt⟩ := hgood
    have hall : s.all isDigit = true := List.all_eq_true.mpr hdigits
    have hfits : ¬int64Max < digitsValue s := by
      unfold int64Max
      omega
    rw [if_neg (by simp [hne, hall, hfits]), if_pos ⟨hne, hdigits, hlt⟩]
    rfl
  · rw [if_neg hgood, if_pos]
    · rfl
    · by_contra hbad
      simp only [not_or, not_not, not_lt] at hbad
      obtain ⟨hne, hall, hfits⟩ := hbad
      refine hgood ⟨hne, List.all_eq_true.mp hall, ?_⟩
      unfold int64Max at hfits
      omega

/-- What the parser makes of an element. -/
def Makes (total : Int) (result : Except String (Option ByteRange)) (element : RangeElement) : Prop :=
  if element.needsTotal total then ∃ detail, result = .error detail
  else result = .ok (element.meets total)

theorem suffixRange_makes (n : Nat) (total : Int) :
    Makes total (suffixRange n total) (.suffix n) := by
  unfold Makes suffixRange
  simp only [RangeElement.needsTotal, RangeElement.meets]
  by_cases hzero : n = 0
  · simp [hzero]
  · have hne : (n : Int) ≠ 0 := by omega
    rw [if_neg hne]
    by_cases hunknown : total < 0
    · simp [hzero, hunknown]
    · by_cases hempty : total = 0
      · simp [hempty]
      · have hpos : ¬(n = 0 ∨ total ≤ 0) := by omega
        simp only [hunknown, decide_false, Bool.and_false, Bool.false_eq_true, if_false,
          if_neg hempty, if_neg hpos, Except.ok.injEq, Option.some.injEq, ByteRange.mk.injEq, and_true]
        split_ifs <;> omega

theorem openRange_makes (n : Nat) (total : Int) :
    Makes total (.ok (openRange n total)) (.startingAt n) := by
  simp only [Makes, openRange, RangeElement.needsTotal, RangeElement.meets, Bool.false_eq_true,
    if_false, Except.ok.injEq]
  split_ifs <;> first | rfl | omega

theorem closedRange_makes (n m : Nat) (total : Int) :
    Makes total (.ok (closedRange n m total)) (.between n m) := by
  simp only [Makes, closedRange, RangeElement.needsTotal, RangeElement.meets, Bool.false_eq_true,
    if_false, Except.ok.injEq]
  split_ifs <;> first | rfl | omega

theorem parseSpec_of_none (total : Int) (h : element? spec = none) :
    ∃ detail, parseSpec spec total = .error detail := by
  unfold element? at h
  unfold parseSpec
  rcases idxOf?_eq '-' spec with ⟨hnone, -⟩ | ⟨i, hsome, hmem, htake, hdrop⟩
  · rw [hnone]
    exact ⟨_, rfl⟩
  · rw [if_neg (not_not.mpr hmem)] at h
    rw [hsome]
    simp only [htake, hdrop, parseUint64_eq]
    generalize trim (cut '-' spec).1 = first, trim (cut '-' spec).2 = last at h
    rcases first with _ | ⟨f, fs⟩ <;> rcases last with _ | ⟨l, ls⟩
    · exact ⟨_, rfl⟩
    · have hlast : number? (l :: ls) = none := by simpa using h
      simp [hlast]
    · have hfirst : number? (f :: fs) = none := by simpa using h
      simp [hfirst]
    · cases hfirst : number? (f :: fs) with
      | none => simp
      | some n =>
        cases hlast : number? (l :: ls) with
        | none => simp
        | some m =>
          have hless : m < n := by simpa [hfirst, hlast] using h
          simp [hless]

theorem parseSpec_of_some {element : RangeElement} (total : Int) (h : element? spec = some element) :
    Makes total (parseSpec spec total) element := by
  unfold element? at h
  unfold parseSpec
  rcases idxOf?_eq '-' spec with ⟨hnone, hmem⟩ | ⟨i, hsome, hmem, htake, hdrop⟩
  · rw [if_pos hmem] at h
    cases h
  · rw [if_neg (not_not.mpr hmem)] at h
    rw [hsome]
    simp only [htake, hdrop, parseUint64_eq]
    generalize trim (cut '-' spec).1 = first, trim (cut '-' spec).2 = last at h
    rcases first with _ | ⟨f, fs⟩ <;> rcases last with _ | ⟨l, ls⟩
    · cases h
    · obtain ⟨n, hn, rfl⟩ := Option.map_eq_some_iff.mp h
      simpa [hn] using suffixRange_makes n total
    · obtain ⟨n, hn, rfl⟩ := Option.map_eq_some_iff.mp h
      simpa [hn] using openRange_makes n total
    · cases hfirst : number? (f :: fs) with
      | none => simp [hfirst] at h
      | some n =>
        cases hlast : number? (l :: ls) with
        | none => simp [hfirst, hlast] at h
        | some m =>
          simp only [hfirst, hlast, Option.bind_eq_bind, Option.bind_some] at h
          split_ifs at h with hless
          obtain rfl := Option.some.inj h
          have hless' : ¬(m : Int) < n := by omega
          simpa [hless'] using closedRange_makes n m total

end Elements

theorem mem_of_mapM {texts : List (List Char)} {elements : List RangeElement} {e : RangeElement}
    (h : texts.mapM element? = some elements) (hmem : e ∈ elements) :
    ∃ text ∈ texts, element? text = some e := by
  induction texts generalizing elements with
  | nil =>
    cases h
    cases hmem
  | cons text texts ih =>
    rw [List.mapM_cons] at h
    cases hfirst : element? text with
    | none => simp [hfirst] at h
    | some first =>
      cases hothers : texts.mapM element? with
      | none => simp [hfirst, hothers] at h
      | some others =>
        obtain rfl : first :: others = elements := by simpa [hfirst, hothers] using h
        cases hmem with
        | head => exact ⟨text, by simp, hfirst⟩
        | tail _ hmem =>
          obtain ⟨text', htext', helement⟩ := ih hothers hmem
          exact ⟨text', by simp [htext'], helement⟩

/-! ## The loop -/

section Loop
variable {total : Int} {pieces : List (List Char × Bool)} {kept : List ByteRange}
variable {outside specs : Nat} {text : List Char} {texts : List (List Char)}

/-- Only the last piece has no comma after it. -/
def Separated : List (List Char × Bool) → Prop
  | [] => True
  | [_] => True
  | piece :: next :: rest => piece.2 = true ∧ Separated (next :: rest)

/-- What is left to find out when so many elements have been read and these ranges kept. -/
def finish (total : Int) (specs : Nat) (kept : List ByteRange) (texts : List (List Char)) :
    RangeOutcome :=
  if specs + texts.length = 0 ∨ 32 < specs + texts.length then .malformed
  else
    match texts.mapM element? with
    | none => .malformed
    | some elements =>
      if elements.any (·.needsTotal total) then .malformed
      else ofRanges (kept ++ elements.filterMap (·.meets total))

theorem referenceOf_eq (texts : List (List Char)) (total : Int) :
    referenceOf texts total = finish total 0 [] texts := by
  simp [referenceOf, finish]

theorem finish_nil (hfew : specs ≤ 32) (hcount : kept.length + outside = specs) :
    finish total specs kept [] = (setResult total kept outside).outcome := by
  have hnot : ¬32 < specs := by omega
  simp only [finish, List.length_nil, Nat.add_zero, hnot, or_false]
  rcases kept with _ | ⟨r, _ | ⟨r', rs⟩⟩
  · obtain rfl : outside = specs := by simpa using hcount
    rw [setResult]
    split_ifs <;> rfl
  · have hpos : specs ≠ 0 := by
      rintro rfl
      simp at hcount
    rw [if_neg hpos]
    rfl
  · have hpos : specs ≠ 0 := by
      rintro rfl
      simp at hcount
    rw [if_neg hpos]
    simp [ofRanges, setResult, RangeResult.outcome]

theorem finish_malformed (h : element? text = none) :
    finish total specs kept (text :: texts) = .malformed := by
  unfold finish
  by_cases hbound : specs + (text :: texts).length = 0 ∨ 32 < specs + (text :: texts).length
  · rw [if_pos hbound]
  · rw [if_neg hbound, List.mapM_cons, h]
    rfl

/-- One element more. -/
theorem finish_cons {element : RangeElement} (h : element? text = some element) :
    finish total specs kept (text :: texts) =
      if element.needsTotal total then .malformed
      else finish total (specs + 1) (kept ++ (element.meets total).toList) texts := by
  have hlength : specs + (text :: texts).length = specs + 1 + texts.length := by
    rw [List.length_cons]
    omega
  unfold finish
  rw [hlength, List.mapM_cons, h]
  by_cases hbound : specs + 1 + texts.length = 0 ∨ 32 < specs + 1 + texts.length
  · simp only [if_pos hbound]
    split_ifs <;> rfl
  · simp only [if_neg hbound]
    cases texts.mapM element? with
    | none => split_ifs <;> rfl
    | some elements =>
      by_cases hneeds : element.needsTotal total = true
      · simp [hneeds]
      · cases hmeets : element.meets total <;> simp [hneeds, hmeets]

/-- The texts that hold something. -/
def pieceTexts (pieces : List (List Char × Bool)) : List (List Char) :=
  (pieces.map fun p => trim p.1).filter (· ≠ [])

theorem parseSet_outcome (hseparated : Separated pieces) (hfew : specs ≤ 32)
    (hcount : kept.length + outside = specs) :
    (parseSet total pieces kept outside specs).outcome =
      finish total specs kept (pieceTexts pieces) := by
  induction pieces generalizing kept outside specs with
  | nil => exact (finish_nil hfew hcount).symm
  | cons piece rest ih =>
    have hrest : Separated rest := by
      cases rest with
      | nil => trivial
      | cons next others => exact hseparated.2
    rw [parseSet]
    by_cases hempty : trim piece.1 = []
    · have htexts : pieceTexts (piece :: rest) = pieceTexts rest := by simp [pieceTexts, hempty]
      rw [if_pos hempty, htexts]
      split_ifs with hfirst
      · -- a last piece without a comma, and nothing before it
        obtain ⟨hnone, hcomma⟩ := hfirst
        cases rest with
        | nil => simp [hnone, finish, pieceTexts, RangeResult.outcome]
        | cons next others =>
          have hmore := hseparated.1
          rw [hcomma] at hmore
          cases hmore
      · exact ih hrest hfew hcount
    · have htexts : pieceTexts (piece :: rest) = trim piece.1 :: pieceTexts rest := by
        simp [pieceTexts, hempty]
      rw [if_neg hempty, htexts]
      by_cases hmany : maxRanges < specs + 1
      · have hbound : 32 < specs + (trim piece.1 :: pieceTexts rest).length := by
          rw [List.length_cons]
          unfold maxRanges at hmany
          omega
        rw [if_pos hmany, finish, if_pos (.inr hbound)]
        rfl
      · have hfew' : specs + 1 ≤ 32 := by
          unfold maxRanges at hmany
          omega
        rw [if_neg hmany]
        cases helement : element? (trim piece.1) with
        | none =>
          obtain ⟨detail, herror⟩ := parseSpec_of_none total helement
          rw [herror, finish_malformed helement]
          rfl
        | some element =>
          have hmakes := parseSpec_of_some total helement
          rw [finish_cons helement]
          unfold Makes at hmakes
          split_ifs at hmakes ⊢ with hneeds
          · obtain ⟨detail, herror⟩ := hmakes
            rw [herror]
            rfl
          · rw [hmakes]
            cases hmeets : element.meets total with
            | none =>
              dsimp only
              rw [ih hrest hfew' (by omega), Option.toList_none, List.append_nil]
            | some r =>
              dsimp only
              rw [ih hrest hfew' (by simp; omega), Option.toList_some]

/-- The pieces of a set hold its elements. -/
theorem pieceTexts_commaPieces (set : List Char) :
    pieceTexts (commaPieces set) = elementTexts set := by
  have htrim : trim [] = [] := rfl
  unfold pieceTexts commaPieces elementTexts
  generalize hparts : set.splitOn ',' = parts
  have hne : parts ≠ [] := hparts ▸ List.splitOn_ne_nil ',' set
  obtain ⟨before, last, rfl⟩ : ∃ before last, parts = before ++ [last] :=
    ⟨_, _, (List.dropLast_append_getLast hne).symm⟩
  dsimp only
  rw [List.dropLast_concat, List.getLast?_concat]
  cases last with
  | nil => simp [Function.comp_def, htrim]
  | cons c cs => simp [Function.comp_def]

theorem separated_commaPieces (set : List Char) : Separated (commaPieces set) := by
  have hall : ∀ (before : List (List Char)) (rest : List (List Char × Bool)), rest.length ≤ 1 →
      Separated (before.map (·, true) ++ rest) := by
    intro before rest hrest
    induction before with
    | nil =>
      rcases rest with _ | ⟨p, _ | ⟨q, rest⟩⟩
      · trivial
      · trivial
      · simp at hrest
    | cons piece before ih =>
      rw [List.map_cons, List.cons_append]
      cases htail : before.map (·, true) ++ rest with
      | nil => trivial
      | cons next others => exact ⟨rfl, htail ▸ ih⟩
  unfold commaPieces
  apply hall
  split <;> simp

end Loop

/-! ## The parser -/

/-- The set is read off the header as the reference does. -/
theorem headerPieces_eq (header : String) :
    (∃ result, headerPieces header = .error result ∧ ∀ total, result.outcome = reference header total) ∨
      ∃ set, headerPieces header = .ok (commaPieces set) ∧
        ∀ total, reference header total = referenceOf (elementTexts set) total := by
  unfold headerPieces reference rangeSet?
  generalize trim header.toList = text
  dsimp only
  by_cases hempty : text = []
  · rw [if_pos hempty]
    exact .inl ⟨_, rfl, fun _ => (if_pos hempty).symm⟩
  · simp only [if_neg hempty]
    rcases idxOf?_eq '=' text with ⟨hnone, hmem⟩ | ⟨i, hsome, hmem, htake, hdrop⟩
    · have hnot : ¬('=' ∈ text ∧ (trim (cut '=' text).1).map Char.toLower = "bytes".toList) :=
        fun h => hmem h.1
      rw [hnone]
      exact .inl ⟨_, rfl, fun _ => by rw [if_neg hnot]; rfl⟩
    · rw [hsome]
      simp only [htake, hdrop]
      by_cases hunit : (trim (cut '=' text).1).map Char.toLower = "bytes".toList
      · rw [if_neg (not_not.mpr hunit), if_pos (And.intro hmem hunit)]
        by_cases hset : trim (cut '=' text).2 = []
        · rw [if_pos hset, hset]
          exact .inl ⟨_, rfl, fun _ => by simp [referenceOf, elementTexts, trim]; rfl⟩
        · rw [if_neg hset]
          exact .inr ⟨_, rfl, fun _ => rfl⟩
      · rw [if_pos hunit, if_neg fun h => hunit h.2]
        exact .inl ⟨_, rfl, fun _ => rfl⟩

theorem parseRangeHeader_outcome (header : String) (total : Int) :
    (parseRangeHeader header total).outcome = reference header total := by
  unfold parseRangeHeader
  rcases headerPieces_eq header with ⟨result, hpieces, hresult⟩ | ⟨set, hpieces, hset⟩
  · rw [hpieces]
    exact hresult total
  · rw [hpieces, hset, referenceOf_eq, ← pieceTexts_commaPieces]
    exact parseSet_outcome (separated_commaPieces set) (by omega) rfl

/-! ## What is covered -/

def RangeOutcome.ranges : RangeOutcome → List ByteRange
  | .single r => [r]
  | .multiple rs => rs
  | _ => []

/-- It lies inside of an object of this length. -/
def ByteRange.Inside (total : Int) (r : ByteRange) : Prop :=
  0 ≤ r.first ∧ r.first ≤ r.last ∧ r.last ≤ total - 1

theorem outcome_ranges (result : RangeResult) : result.outcome.ranges = result.ranges := by
  cases result <;> rfl

theorem ranges_ofRanges (rs : List ByteRange) : (ofRanges rs).ranges = rs := by
  rcases rs with _ | ⟨r, _ | ⟨r', rs⟩⟩ <;> rfl

theorem first_le_last {spec : List Char} {first last : Nat}
    (h : element? spec = some (.between first last)) : first ≤ last := by
  unfold element? at h
  split_ifs at h
  split at h
  · cases h
  · simp at h
  · simp at h
  · cases hfirst : number? (trim (cut '-' spec).1) with
    | none => simp [hfirst] at h
    | some n =>
      cases hlast : number? (trim (cut '-' spec).2) with
      | none => simp [hfirst, hlast] at h
      | some m =>
        simp only [hfirst, hlast, Option.bind_eq_bind, Option.bind_some] at h
        split_ifs at h with hless
        cases h
        omega

theorem meets_inside {spec : List Char} {element : RangeElement} {total : Int} {r : ByteRange}
    (htotal : 0 ≤ total) (h : element? spec = some element) (hr : element.meets total = some r) :
    r.Inside total := by
  have hknown : ¬total < 0 := by omega
  cases element with
  | suffix n =>
    simp only [RangeElement.meets] at hr
    split_ifs at hr with hnone
    cases hr
    simp only [ByteRange.Inside]
    omega
  | startingAt first =>
    simp only [RangeElement.meets, if_neg hknown] at hr
    split_ifs at hr
    cases hr
    simp only [ByteRange.Inside]
    omega
  | between first last =>
    have hle := first_le_last h
    simp only [RangeElement.meets, if_neg hknown] at hr
    split_ifs at hr
    cases hr
    simp only [ByteRange.Inside]
    omega

theorem referenceOf_inside {texts : List (List Char)} {total : Int} (htotal : 0 ≤ total) :
    ∀ r ∈ (referenceOf texts total).ranges, r.Inside total := by
  intro r hr
  unfold referenceOf at hr
  split_ifs at hr
  · cases hr
  · cases helements : texts.mapM element? with
    | none =>
      rw [helements] at hr
      cases hr
    | some elements =>
      rw [helements] at hr
      dsimp only at hr
      split_ifs at hr
      · cases hr
      · rw [ranges_ofRanges] at hr
        obtain ⟨element, hmem, hmeets⟩ := List.mem_filterMap.mp hr
        obtain ⟨spec, -, hspec⟩ := mem_of_mapM helements hmem
        exact meets_inside htotal hspec hmeets

/-- What a header asks for is what it says, and nothing outside of the object. -/
theorem ranges_are_exact (header : String) (total : Int) :
    (parseRangeHeader header total).outcome = reference header total ∧
      (0 ≤ total → ∀ r ∈ (parseRangeHeader header total).ranges, r.Inside total) := by
  have houtcome := parseRangeHeader_outcome header total
  refine ⟨houtcome, ?_⟩
  intro htotal r hr
  rw [← outcome_ranges, houtcome, reference] at hr
  split_ifs at hr
  · cases hr
  · split at hr
    · cases hr
    · exact referenceOf_inside htotal r hr

end FileService.Http
