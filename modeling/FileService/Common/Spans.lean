import Mathlib.Data.List.Sort
import Mathlib.Tactic

/-!
# Spans of a text

A scanner finds spans of a text in any order, and they may overlap. Sorted and
joined they are replaced one by one from the end, so that the places of the
earlier ones stay what they were. What comes out depends only on which places
are covered: each longest run of covered places becomes one mask.
-/
namespace FileService.Common.Spans

variable {α : Type}

/-- The places from the first number up to, and without, the second. -/
abbrev Span := Nat × Nat

/-- The order of pairs. -/
def Before (s t : Span) : Prop := s.1 < t.1 ∨ (s.1 = t.1 ∧ s.2 ≤ t.2)

instance : DecidableRel Before := fun _ _ => inferInstanceAs (Decidable (_ ∨ _))

instance : Std.Total Before := ⟨fun s t => by unfold Before; omega⟩

instance : IsTrans Span Before := ⟨fun s t u => by unfold Before; omega⟩

/-- One more span behind those that are joined already, the last of which comes first. -/
def join : List Span → Span → List Span
  | [], s => [s]
  | last :: before, s =>
    if s.1 ≤ last.2 then (last.1, max last.2 s.2) :: before else s :: last :: before

/-- Overlapping and touching spans as one, the last one first. -/
def merge (spans : List Span) : List Span := (spans.insertionSort Before).foldl join []

/-- The mask in the place of each span, the last one first. -/
def replaceAll (mask text : List α) (spans : List Span) : List α :=
  spans.foldl (fun work s => work.take s.1 ++ mask ++ work.drop s.2) text

def Covers (spans : List Span) (p : Nat) : Prop := ∃ s ∈ spans, s.1 ≤ p ∧ p < s.2

instance (spans : List Span) : DecidablePred (Covers spans) :=
  fun _ => inferInstanceAs (Decidable (∃ _ ∈ _, _))

/-- The text from the place `i` on, with a mask where a run of covered places starts. -/
def draw (mask : List α) (covered : Nat → Prop) [DecidablePred covered] : Nat → List α → List α
  | _, [] => []
  | i, c :: rest =>
    (if covered i then if 0 < i ∧ covered (i - 1) then [] else mask else [c]) ++
      draw mask covered (i + 1) rest

section Covers
variable {s : Span} {spans : List Span} {p : Nat}

@[simp] theorem covers_nil : Covers [] p ↔ False := by simp [Covers]

@[simp] theorem covers_cons : Covers (s :: spans) p ↔ s.1 ≤ p ∧ p < s.2 ∨ Covers spans p := by
  simp [Covers]

end Covers

/-! ## Joining -/

section Join
variable {s : Span} {spans joined : List Span} {p : Nat}

/-- Spans that hold a place each and leave one between them, the last one first. -/
def Apart : List Span → Prop
  | [] => True
  | [s] => s.1 < s.2
  | s :: t :: rest => s.1 < s.2 ∧ t.2 < s.1 ∧ Apart (t :: rest)

theorem Apart.tail (h : Apart (s :: spans)) : Apart spans := by
  cases spans with
  | nil => trivial
  | cons t rest => exact h.2.2

theorem Apart.head_lt (h : Apart (s :: spans)) : s.1 < s.2 := by
  cases spans with
  | nil => exact h
  | cons t rest => exact h.1

theorem Apart.lt (h : Apart spans) : ∀ s ∈ spans, s.1 < s.2 := by
  induction spans with
  | nil => simp
  | cons s spans ih => exact List.forall_mem_cons.mpr ⟨h.head_lt, ih h.tail⟩

/-- The first span starts no later than this place. -/
def StartsBy (p : Nat) (spans : List Span) : Prop := ∀ s ∈ spans.head?, s.1 ≤ p

theorem join_apart (hjoined : Apart joined) (hs : s.1 < s.2) (hstart : StartsBy s.1 joined) :
    Apart (join joined s) := by
  cases joined with
  | nil => exact hs
  | cons last before =>
    have hlast := hjoined.head_lt
    rw [join]
    split_ifs with htouch
    · cases before with
      | nil =>
        show last.1 < max last.2 s.2
        omega
      | cons t rest => exact ⟨by show last.1 < max last.2 s.2; omega, hjoined.2.1, hjoined.2.2⟩
    · exact ⟨hs, by omega, hjoined⟩

theorem join_covers (hstart : StartsBy s.1 joined) (hjoined : Apart joined) (_ : s.1 < s.2) :
    Covers (join joined s) p ↔ Covers joined p ∨ (s.1 ≤ p ∧ p < s.2) := by
  cases joined with
  | nil => simp [join]
  | cons last before =>
    have hlast := hjoined.head_lt
    have hle : last.1 ≤ s.1 := hstart last rfl
    rw [join]
    split_ifs with htouch
    · simp only [covers_cons]
      have hunion : last.1 ≤ p ∧ p < max last.2 s.2 ↔
          (last.1 ≤ p ∧ p < last.2) ∨ (s.1 ≤ p ∧ p < s.2) := by
        omega
      rw [hunion, or_right_comm]
    · simp only [covers_cons]
      rw [or_comm (b := last.1 ≤ p ∧ p < last.2 ∨ _)]

theorem startsBy_join {q : Nat} (hstart : StartsBy s.1 joined) (hq : s.1 ≤ q) :
    StartsBy q (join joined s) := by
  cases joined with
  | nil => simpa [join, StartsBy] using hq
  | cons last before =>
    have hle : last.1 ≤ s.1 := hstart last rfl
    rw [join]
    split_ifs
    · simp [StartsBy]
      omega
    · simpa [StartsBy] using hq

theorem foldl_join (hsorted : spans.Pairwise Before) (hspans : ∀ s ∈ spans, s.1 < s.2)
    (hjoined : Apart joined) (hstart : ∀ s ∈ spans, StartsBy s.1 joined) :
    Apart (spans.foldl join joined) ∧
      ∀ p, Covers (spans.foldl join joined) p ↔ Covers joined p ∨ Covers spans p := by
  induction spans generalizing joined with
  | nil => exact ⟨hjoined, by simp⟩
  | cons s spans ih =>
    obtain ⟨hfirst, hrest⟩ := List.pairwise_cons.mp hsorted
    have hs := hspans s List.mem_cons_self
    have hby := hstart s List.mem_cons_self
    have hlater : ∀ t ∈ spans, StartsBy t.1 (join joined s) := by
      intro t ht
      refine startsBy_join hby ?_
      rcases hfirst t ht with hlt | ⟨heq, -⟩ <;> omega
    obtain ⟨hapart, hcovers⟩ := ih hrest (fun t ht => hspans t (List.mem_cons_of_mem _ ht))
      (join_apart hjoined hs hby) hlater
    refine ⟨hapart, fun p => ?_⟩
    rw [List.foldl_cons, hcovers, join_covers hby hjoined hs, covers_cons, or_assoc]

theorem merge_apart (hspans : ∀ s ∈ spans, s.1 < s.2) :
    Apart (merge spans) ∧ ∀ p, Covers (merge spans) p ↔ Covers spans p := by
  have hmem : ∀ s, s ∈ spans.insertionSort Before ↔ s ∈ spans := fun s => List.mem_insertionSort _
  obtain ⟨hapart, hcovers⟩ := foldl_join (spans.pairwise_insertionSort Before)
    (fun s hs => hspans s ((hmem s).mp hs)) (show Apart [] from trivial) (by simp [StartsBy])
  refine ⟨hapart, fun p => ?_⟩
  rw [merge, hcovers]
  simp [Covers, hmem]

end Join

/-! ## Replacing -/

section Replace
variable {mask text before behind : List α} {s : Span} {spans : List Span}

section Draw
variable {covered covered' : Nat → Prop} [DecidablePred covered] [DecidablePred covered'] {i : Nat}

theorem draw_append :
    draw mask covered i (before ++ behind) =
      draw mask covered i before ++ draw mask covered (i + before.length) behind := by
  induction before generalizing i with
  | nil => simp [draw]
  | cons c before ih => simp [draw, ih, Nat.add_comm, Nat.add_left_comm]

/-- The places of the text and the one before it say what is drawn. -/
theorem draw_congr (hlast : 0 < i → (covered (i - 1) ↔ covered' (i - 1)))
    (h : ∀ p, i ≤ p → p < i + text.length → (covered p ↔ covered' p)) :
    draw mask covered i text = draw mask covered' i text := by
  induction text generalizing i with
  | nil => rfl
  | cons c text ih =>
    have hhere : covered i ↔ covered' i := h i le_rfl (by simp)
    have hrest := ih (i := i + 1) (fun _ => by simpa using hhere)
      (fun p hp hlt => h p (by omega) (by simp only [List.length_cons]; omega))
    have hstarts : (0 < i ∧ covered (i - 1)) ↔ (0 < i ∧ covered' (i - 1)) := and_congr_right hlast
    simp only [draw, hhere, hstarts, hrest]

theorem draw_uncovered (h : ∀ p, i ≤ p → p < i + text.length → ¬covered p) :
    draw mask covered i text = text := by
  induction text generalizing i with
  | nil => rfl
  | cons c text ih =>
    have hhere : ¬covered i := h i le_rfl (by simp)
    have hrest := ih (i := i + 1)
      (fun p hp hlt => h p (by omega) (by simp only [List.length_cons]; omega))
    simp [draw, hhere, hrest]

theorem draw_inside (hi : 0 < i) (hlast : covered (i - 1))
    (h : ∀ p, i ≤ p → p < i + text.length → covered p) : draw mask covered i text = [] := by
  induction text generalizing i with
  | nil => rfl
  | cons c text ih =>
    have hhere : covered i := h i le_rfl (by simp)
    have hrest := ih (i := i + 1) (by omega) (by simpa using hhere)
      (fun p hp hlt => h p (by omega) (by simp only [List.length_cons]; omega))
    simp [draw, hhere, hi, hlast, hrest]

/-- A run of covered places becomes one mask. -/
theorem draw_covered (hfirst : 0 < i → ¬covered (i - 1)) (htext : text ≠ [])
    (h : ∀ p, i ≤ p → p < i + text.length → covered p) : draw mask covered i text = mask := by
  obtain ⟨c, text, rfl⟩ := List.exists_cons_of_ne_nil htext
  have hhere : covered i := h i le_rfl (by simp)
  have hstarts : ¬(0 < i ∧ covered (i - 1)) := fun h => hfirst h.1 h.2
  have hrest : draw mask covered (i + 1) text = [] :=
    draw_inside (by omega) (by simpa using hhere)
      (fun p hp hlt => h p (by omega) (by simp only [List.length_cons]; omega))
  simp [draw, hhere, hstarts, hrest]

end Draw

/-- All spans end by this place. -/
def EndBy (p : Nat) (spans : List Span) : Prop := ∀ s ∈ spans, s.2 ≤ p

theorem Apart.endBy (h : Apart (s :: spans)) : EndBy (s.1 - 1) spans := by
  induction spans generalizing s with
  | nil => simp [EndBy]
  | cons t spans ih =>
    obtain ⟨-, hgap, hrest⟩ := h
    have hlater := ih hrest
    have ht := hrest.head_lt
    intro u hu
    rcases List.mem_cons.mp hu with rfl | hu
    · omega
    · have := hlater u hu
      omega

theorem replaceAll_append (hapart : Apart spans) (hend : EndBy before.length spans) :
    replaceAll mask (before ++ behind) spans = replaceAll mask before spans ++ behind := by
  induction spans generalizing before with
  | nil => rfl
  | cons s spans ih =>
    have hs := hapart.head_lt
    have hle := hend s List.mem_cons_self
    have hends : EndBy (before.take s.1 ++ mask ++ before.drop s.2).length spans := by
      intro t ht
      have := hapart.endBy t ht
      simp only [List.length_append, List.length_take]
      omega
    have hwork : (before ++ behind).take s.1 ++ mask ++ (before ++ behind).drop s.2 =
        before.take s.1 ++ mask ++ before.drop s.2 ++ behind := by
      rw [List.take_append_of_le_length (by omega), List.drop_append_of_le_length hle]
      simp
    simp only [replaceAll, List.foldl_cons] at ih ⊢
    rw [hwork]
    exact ih hapart.tail hends

theorem not_covers_of_endBy {p q : Nat} (hend : EndBy p spans) (hq : p ≤ q) : ¬Covers spans q := by
  rintro ⟨s, hs, -, hlt⟩
  have := hend s hs
  omega

/-- Only the covered places count for what the replacements make of a text. -/
theorem replaceAll_eq_draw (hapart : Apart spans) (hend : EndBy text.length spans) :
    replaceAll mask text spans = draw mask (Covers spans) 0 text := by
  induction spans generalizing text with
  | nil => exact (draw_uncovered (by simp)).symm
  | cons s spans ih =>
    have hs := hapart.head_lt
    have hle := hend s List.mem_cons_self
    have hbefore := hapart.endBy
    have hlength : (text.take s.1).length = s.1 := by
      rw [List.length_take]
      omega
    have hspan : ((text.take s.2).drop s.1).length = s.2 - s.1 := by
      rw [List.length_drop, List.length_take]
      omega
    have hsplit : text = text.take s.1 ++ (text.take s.2).drop s.1 ++ text.drop s.2 := by
      have htake : text.take s.1 = (text.take s.2).take s.1 := by
        rw [List.take_take, min_eq_left hs.le]
      rw [htake, List.take_append_drop, List.take_append_drop]
    have hearlier : replaceAll mask (text.take s.1) spans =
        draw mask (Covers (s :: spans)) 0 (text.take s.1) := by
      rw [ih hapart.tail (fun t ht => by have := hbefore t ht; omega)]
      refine draw_congr (by simp) fun p _ hp => ?_
      have : ¬(s.1 ≤ p ∧ p < s.2) := by omega
      simp [this]
    have hhere : draw mask (Covers (s :: spans)) s.1 ((text.take s.2).drop s.1) = mask := by
      refine draw_covered (fun hpos => ?_) ?_ fun p hp hlt => ?_
      · have hgap := not_covers_of_endBy hbefore (le_refl (s.1 - 1))
        have : ¬(s.1 ≤ s.1 - 1 ∧ s.1 - 1 < s.2) := by omega
        simp [hgap, this]
      · refine List.ne_nil_of_length_pos ?_
        omega
      · exact covers_cons.mpr (.inl ⟨hp, by omega⟩)
    have hlater : draw mask (Covers (s :: spans)) s.2 (text.drop s.2) = text.drop s.2 := by
      refine draw_uncovered fun p hp _ => ?_
      have hrest := not_covers_of_endBy (q := p) hbefore (by omega)
      have : ¬(s.1 ≤ p ∧ p < s.2) := by omega
      simp [hrest, this]
    have hwork : replaceAll mask text (s :: spans) =
        replaceAll mask (text.take s.1) spans ++ (mask ++ text.drop s.2) := by
      have hends : EndBy (text.take s.1).length spans := fun t ht => by
        have := hbefore t ht
        omega
      rw [← replaceAll_append hapart.tail hends, ← List.append_assoc]
      rfl
    have hmiddle : 0 + (text.take s.1 ++ (text.take s.2).drop s.1).length = s.2 := by
      rw [List.length_append]
      omega
    conv_rhs => rw [hsplit]
    rw [hwork, draw_append, draw_append, hmiddle, hlength, Nat.zero_add, hearlier, hhere, hlater,
      List.append_assoc]

/-- Sorted, joined and replaced from the end: one mask for each run of places that a span covers. -/
theorem replaceAll_merge (hspans : ∀ s ∈ spans, s.1 < s.2) (hend : EndBy text.length spans) :
    replaceAll mask text (merge spans) = draw mask (Covers spans) 0 text := by
  obtain ⟨hapart, hcovers⟩ := merge_apart hspans
  have hends : EndBy text.length (merge spans) := by
    intro s hs
    have hlt := hapart.lt s hs
    have hlast : Covers (merge spans) (s.2 - 1) := ⟨s, hs, by omega, by omega⟩
    obtain ⟨t, ht, -, hlt'⟩ := (hcovers _).mp hlast
    have := hend t ht
    omega
  rw [replaceAll_eq_draw hapart hends]
  exact draw_congr (by simp) fun p _ _ => hcovers p

end Replace

end FileService.Common.Spans
