import FileService.Http.Message
import Mathlib.Data.List.DropRight

/-!
# The `Range` header

A header that cannot be understood is malformed, and ignored; one that can is
unsatisfiable when none of its ranges meets the object. Without a known total
(a negative one) only the syntax is checked.
-/
namespace FileService.Http
open FileService.Common

/-- A closed interval of byte positions. -/
structure ByteRange where
  first : Int
  last : Int
deriving DecidableEq, Repr

def ByteRange.length (r : ByteRange) : Int := r.last - r.first + 1

inductive RangeResult where
  | absent
  | single (range : ByteRange)
  | multiple (ranges : List ByteRange)
  | unsatisfiable (detail : String)
  | malformed (detail : String)
deriving DecidableEq, Repr

def int64Max : Int := 9223372036854775807

def maxRanges : Nat := 32

def isBlank (c : Char) : Bool := c == ' ' || c == '\t'

/-- Without the spaces and tabs at both ends. -/
def trim (s : List Char) : List Char := s.rdropWhile isBlank |>.dropWhile isBlank

def isDigit (c : Char) : Bool := decide ('0' ≤ c) && decide (c ≤ '9')

def digitsValue (s : List Char) : Nat := s.foldl (fun v c => v * 10 + (c.toNat - '0'.toNat)) 0

/-- Digits only, and no overflow of a signed 64-bit integer. -/
def parseUint64 (s : List Char) : Option Int :=
  if s = [] ∨ ¬ s.all isDigit = true ∨ int64Max < digitsValue s then none
  else some (digitsValue s)

/-- `-N`, the last `suffix` octets: `none` when there are none of them. -/
def suffixRange (suffix total : Int) : Except String (Option ByteRange) :=
  if suffix = 0 then .ok none
  else if total < 0 then .error "总长未知时无法解析后缀区间"
  else if total = 0 then .ok none
  else .ok (some ⟨if total ≤ suffix then 0 else total - suffix, total - 1⟩)

/-- `N-` -/
def openRange (first total : Int) : Option ByteRange :=
  if total < 0 then some ⟨first, int64Max⟩
  else if total ≤ first then none
  else some ⟨first, total - 1⟩

/-- `N-M`, cut off at the end of the object. -/
def closedRange (first last total : Int) : Option ByteRange :=
  if total < 0 then some ⟨first, last⟩
  else if total ≤ first then none
  else some ⟨first, min last (total - 1)⟩

/-- One range of the set: `none` when it lies outside of the object. -/
def parseSpec (spec : List Char) (total : Int) : Except String (Option ByteRange) :=
  match spec.idxOf? '-' with
  | none => .error ("缺少 '-'：'" ++ String.ofList spec ++ "'")
  | some dash =>
    let firstText := trim (spec.take dash)
    let lastText := trim (spec.drop (dash + 1))
    if firstText = [] ∧ lastText = [] then .error "'-' 两侧都为空"
    else if firstText = [] then
      match parseUint64 lastText with
      | none => .error ("后缀长度非法：'" ++ String.ofList lastText ++ "'")
      | some suffix => suffixRange suffix total
    else
      match parseUint64 firstText with
      | none => .error ("区间起点非法：'" ++ String.ofList firstText ++ "'")
      | some first =>
        if lastText = [] then .ok (openRange first total)
        else
          match parseUint64 lastText with
          | none => .error ("区间终点非法：'" ++ String.ofList lastText ++ "'")
          | some last =>
            if last < first then
              .error ("终点小于起点：" ++ toString first ++ "-" ++ toString last)
            else .ok (closedRange first last total)

/-- The pieces between commas, each with whether a comma follows. Nothing follows a comma
at the end. -/
def commaPieces (set : List Char) : List (List Char × Bool) :=
  let parts := set.splitOn ','
  parts.dropLast.map (·, true) ++
    match parts.getLast? with
    | some (c :: cs) => [(c :: cs, false)]
    | _ => []

/-- The result of the set: the ranges kept, and how many were outside of the object. -/
def setResult (total : Int) (kept : List ByteRange) (outside : Nat) : RangeResult :=
  match kept with
  | [] =>
    if outside = 0 then .malformed "没有可解析的区间"
    else .unsatisfiable ("全部区间不可满足（total=" ++ toString total ++ "）")
  | [r] => .single r
  | rs => .multiple rs

/-- The loop over the pieces: the ranges kept so far, how many were outside, how many
pieces held a range. -/
def parseSet (total : Int) : List (List Char × Bool) → List ByteRange → Nat → Nat → RangeResult
  | [], kept, outside, _ => setResult total kept outside
  | (piece, comma) :: rest, kept, outside, specs =>
    if trim piece = [] then
      if specs = 0 ∧ comma = false then .malformed "空区间"
      else parseSet total rest kept outside specs
    else if maxRanges < specs + 1 then
      .malformed ("区间数量超过上限 " ++ toString maxRanges)
    else
      match parseSpec (trim piece) total with
      | .error detail => .malformed detail
      | .ok none => parseSet total rest kept (outside + 1) (specs + 1)
      | .ok (some r) => parseSet total rest (kept ++ [r]) outside (specs + 1)

/-- The pieces of the set of a header in bytes, or what the header is instead. -/
def headerPieces (headerValue : String) : Except RangeResult (List (List Char × Bool)) :=
  let header := trim headerValue.toList
  if header = [] then .error .absent
  else
    match header.idxOf? '=' with
    | none => .error (.malformed "缺少 '='")
    | some eq =>
      let unit := (trim (header.take eq)).map Char.toLower
      let set := trim (header.drop (eq + 1))
      if unit ≠ "bytes".toList then
        .error (.malformed ("未知单位 '" ++ String.ofList unit ++ "'"))
      else if set = [] then .error (.malformed "空的区间集合")
      else .ok (commaPieces set)

/-- `ParseRangeHeader` -/
def parseRangeHeader (headerValue : String) (total : Int) : RangeResult :=
  match headerPieces headerValue with
  | .error result => result
  | .ok pieces => parseSet total pieces [] 0 0

/-! ## What the results say -/

section Results
variable {total : Int} {spec : List Char} {pieces : List (List Char × Bool)}
variable {kept : List ByteRange} {outside specs : Nat} {detail : String}

theorem parseUint64_nonneg {s : List Char} {n : Int} (h : parseUint64 s = some n) : 0 ≤ n := by
  unfold parseUint64 at h
  split at h
  · cases h
  · cases h
    exact Int.natCast_nonneg _

/-- What a range is does not depend on the total; what it covers does. -/
theorem parseSpec_cases (spec : List Char) :
    (∃ detail, ∀ total, parseSpec spec total = .error detail) ∨
    (∃ suffix, ∀ total, parseSpec spec total = suffixRange suffix total) ∨
    (∃ first, 0 ≤ first ∧ ∀ total, parseSpec spec total = .ok (openRange first total)) ∨
    ∃ first last, 0 ≤ first ∧ ∀ total, parseSpec spec total = .ok (closedRange first last total) := by
  unfold parseSpec
  cases spec.idxOf? '-' with
  | none => exact .inl ⟨_, fun _ => rfl⟩
  | some dash =>
    dsimp only
    generalize trim (spec.take dash) = firstText, trim (spec.drop (dash + 1)) = lastText
    by_cases hneither : firstText = [] ∧ lastText = []
    · exact .inl ⟨_, fun _ => if_pos hneither⟩
    simp only [if_neg hneither]
    by_cases hsuffix : firstText = []
    · simp only [if_pos hsuffix]
      cases parseUint64 lastText with
      | none => exact .inl ⟨_, fun _ => rfl⟩
      | some suffix => exact .inr (.inl ⟨suffix, fun _ => rfl⟩)
    simp only [if_neg hsuffix]
    cases hfirst : parseUint64 firstText with
    | none => exact .inl ⟨_, fun _ => rfl⟩
    | some first =>
      have hpos := parseUint64_nonneg hfirst
      dsimp only
      by_cases hopen : lastText = []
      · simp only [if_pos hopen]
        exact .inr (.inr (.inl ⟨first, hpos, fun _ => rfl⟩))
      simp only [if_neg hopen]
      cases parseUint64 lastText with
      | none => exact .inl ⟨_, fun _ => rfl⟩
      | some last =>
        dsimp only
        by_cases hless : last < first
        · exact .inl ⟨_, fun _ => if_pos hless⟩
        · simp only [if_neg hless]
          exact .inr (.inr (.inr ⟨first, last, hpos, fun _ => rfl⟩))

theorem parseSpec_first {r : ByteRange} (h : parseSpec spec total = .ok (some r)) : 0 ≤ r.first := by
  rcases parseSpec_cases spec with ⟨d, hd⟩ | ⟨suffix, hs⟩ | ⟨first, hpos, ho⟩ | ⟨first, last, hpos, hc⟩
  · rw [hd] at h
    cases h
  · rw [hs, suffixRange] at h
    repeat' split at h
    all_goals cases h
    · exact le_rfl
    · dsimp only
      omega
  · rw [ho, openRange] at h
    repeat' split at h
    all_goals cases h <;> exact hpos
  · rw [hc, closedRange] at h
    repeat' split at h
    all_goals cases h <;> exact hpos

/-- A range that is malformed for a known total is so without one. -/
theorem parseSpec_error (htotal : 0 ≤ total) (h : parseSpec spec total = .error detail) :
    parseSpec spec (-1) = .error detail := by
  rcases parseSpec_cases spec with ⟨d, hd⟩ | ⟨suffix, hs⟩ | ⟨first, -, ho⟩ | ⟨first, last, -, hc⟩
  · rw [hd] at h ⊢
    exact h
  · have hnot : ¬total < 0 := by omega
    rw [hs, suffixRange, if_neg hnot] at h
    repeat' split at h
    all_goals cases h
  · rw [ho] at h
    cases h
  · rw [hc] at h
    cases h

theorem setResult_ne_absent : setResult total kept outside ≠ .absent := by
  rcases kept with _ | ⟨r, _ | ⟨r', rs⟩⟩
  · rw [setResult]
    split <;> simp
  · simp [setResult]
  · simp [setResult]

theorem setResult_single {r : ByteRange} (h : setResult total kept outside = .single r) :
    kept = [r] := by
  rcases kept with _ | ⟨k, _ | ⟨k', ks⟩⟩
  · rw [setResult] at h
    split at h <;> cases h
  · cases h
    rfl
  · cases h

theorem setResult_malformed (h : setResult total kept outside = .malformed detail) :
    kept = [] ∧ outside = 0 := by
  rcases kept with _ | ⟨k, _ | ⟨k', ks⟩⟩
  · rw [setResult] at h
    split at h
    · exact ⟨rfl, by assumption⟩
    · cases h
  · cases h
  · cases h

/-- No header that names ranges counts as absent. -/
theorem parseSet_ne_absent : parseSet total pieces kept outside specs ≠ .absent := by
  induction pieces generalizing kept outside specs with
  | nil => exact setResult_ne_absent
  | cons piece pieces ih =>
    rw [parseSet]
    repeat' split
    all_goals first
      | exact ih
      | simp

theorem parseSet_single {r : ByteRange} (hkept : ∀ k ∈ kept, 0 ≤ k.first)
    (h : parseSet total pieces kept outside specs = .single r) : 0 ≤ r.first := by
  induction pieces generalizing kept outside specs with
  | nil =>
    rw [setResult_single h] at hkept
    exact hkept r List.mem_cons_self
  | cons piece pieces ih =>
    rw [parseSet] at h
    split at h
    · split at h
      · cases h
      · exact ih hkept h
    · split at h
      · cases h
      · split at h
        · cases h
        · exact ih hkept h
        · rename_i k hk
          exact ih (List.forall_mem_append.mpr ⟨hkept, by simpa using parseSpec_first hk⟩) h

/-- A set that is malformed for a known total is so without one. -/
theorem parseSet_malformed {kept' : List ByteRange} {outside' : Nat} (htotal : 0 ≤ total)
    (hnone : kept = [] → outside = 0 → kept' = [] ∧ outside' = 0)
    (h : parseSet total pieces kept outside specs = .malformed detail) :
    ∃ detail', parseSet (-1) pieces kept' outside' specs = .malformed detail' := by
  induction pieces generalizing kept kept' outside outside' specs with
  | nil =>
    obtain ⟨hkept, houtside⟩ := setResult_malformed h
    obtain ⟨rfl, rfl⟩ := hnone hkept houtside
    exact ⟨_, rfl⟩
  | cons piece pieces ih =>
    rw [parseSet] at h ⊢
    by_cases hempty : trim piece.1 = []
    · simp only [if_pos hempty] at h ⊢
      split at h
      · rename_i hfirst
        exact ⟨_, if_pos hfirst⟩
      · rename_i hmore
        rw [if_neg hmore]
        exact ih hnone h
    simp only [if_neg hempty] at h ⊢
    split at h
    · rename_i hmany
      exact ⟨_, if_pos hmany⟩
    rename_i hmany
    rw [if_neg hmany]
    cases hspec : parseSpec (trim piece.1) (-1) with
    | error d => exact ⟨d, rfl⟩
    | ok range =>
      cases hspec' : parseSpec (trim piece.1) total with
      | error d =>
        rw [parseSpec_error htotal hspec'] at hspec
        cases hspec
      | ok range' =>
        cases range <;> cases range' <;> simp only [hspec'] at h <;> exact ih (by simp) h

theorem headerPieces_error {header : String} {result : RangeResult}
    (h : headerPieces header = .error result) :
    result = .absent ∧ trim header.toList = [] ∨
      (∃ detail, result = .malformed detail) ∧ trim header.toList ≠ [] := by
  unfold headerPieces at h
  by_cases hblank : trim header.toList = []
  · rw [if_pos hblank] at h
    cases h
    exact .inl ⟨rfl, hblank⟩
  · rw [if_neg hblank] at h
    refine .inr ⟨?_, hblank⟩
    cases heq : (trim header.toList).idxOf? '=' with
    | none =>
      simp only [heq] at h
      cases h
      exact ⟨_, rfl⟩
    | some eq =>
      simp only [heq] at h
      repeat' split at h
      all_goals cases h <;> exact ⟨_, rfl⟩

theorem parseRangeHeader_single {header : String} {r : ByteRange}
    (h : parseRangeHeader header total = .single r) : 0 ≤ r.first := by
  unfold parseRangeHeader at h
  split at h
  · rename_i hpieces
    rcases headerPieces_error hpieces with ⟨rfl, -⟩ | ⟨⟨detail, rfl⟩, -⟩ <;> cases h
  · exact parseSet_single (List.forall_mem_nil _) h

theorem parseRangeHeader_malformed {header : String} (htotal : 0 ≤ total)
    (h : parseRangeHeader header total = .malformed detail) :
    ∃ detail', parseRangeHeader header (-1) = .malformed detail' := by
  unfold parseRangeHeader at h ⊢
  split at h
  · exact ⟨detail, h⟩
  · exact parseSet_malformed htotal (fun _ _ => ⟨rfl, rfl⟩) h

/-- Only a blank header counts as absent. -/
theorem parseRangeHeader_absent {header : String} :
    parseRangeHeader header total = .absent ↔ trim header.toList = [] := by
  constructor
  · intro h
    unfold parseRangeHeader at h
    split at h
    · rename_i hpieces
      rcases headerPieces_error hpieces with ⟨-, hblank⟩ | ⟨⟨detail, rfl⟩, -⟩
      · exact hblank
      · cases h
    · exact absurd h parseSet_ne_absent
  · intro hblank
    simp [parseRangeHeader, headerPieces, hblank]

end Results

def totalText (total : Int) : String := if 0 ≤ total then toString total else "*"

def formatContentRange (range : ByteRange) (total : Int) : String :=
  "bytes " ++ toString range.first ++ "-" ++ toString range.last ++ "/" ++ totalText total

def formatUnsatisfiedContentRange (total : Int) : String := "bytes */" ++ totalText total

end FileService.Http
