import Mathlib.Algebra.BigOperators.Group.List.Basic
import Mathlib.Algebra.GroupWithZero.Nat
import Mathlib.Data.List.TakeWhile

/-!
# Delimited texts

Pieces that are joined with a separator they do not contain can be told apart
again, and the lengths of the pieces add up to that of the text.
-/
namespace FileService.Common.Delimited
variable {α : Type*}

section Cut
variable [DecidableEq α] {sep : α} {text before : List α}

/-- What stands before the first separator and what stands after it. -/
def cut (sep : α) : List α → List α × List α
  | [] => ([], [])
  | c :: rest => if c = sep then ([], rest) else (c :: (cut sep rest).1, (cut sep rest).2)

theorem cut_append (h : sep ∉ before) (after : List α) :
    cut sep (before ++ sep :: after) = (before, after) := by
  induction before with
  | nil => simp [cut]
  | cons c before ih =>
    simp only [List.mem_cons, not_or] at h
    obtain ⟨hc, hbefore⟩ := h
    rw [List.cons_append, cut, if_neg (Ne.symm hc), ih hbefore]

/-- What stands before a separator tells where it is. -/
theorem append_inj_of_notMem {other rest rest' : List α} (hbefore : sep ∉ before)
    (hother : sep ∉ other) (h : before ++ sep :: rest = other ++ sep :: rest') :
    before = other ∧ rest = rest' := by
  have hcut := congrArg (cut sep) h
  rw [cut_append hbefore, cut_append hother] at hcut
  exact Prod.mk.inj hcut

theorem cut_of_notMem (h : sep ∉ text) : cut sep text = (text, []) := by
  induction text with
  | nil => rfl
  | cons c text ih =>
    simp only [List.mem_cons, not_or] at h
    obtain ⟨hc, htext⟩ := h
    rw [cut, if_neg (Ne.symm hc), ih htext]

/-- A text is what stands before the separator, the separator, and what stands after it. -/
theorem append_cut (h : sep ∈ text) : (cut sep text).1 ++ sep :: (cut sep text).2 = text := by
  induction text with
  | nil => cases h
  | cons c text ih =>
    rw [cut]
    split_ifs with hc
    · rw [hc]
      rfl
    · exact congrArg (c :: ·) (ih ((List.mem_cons.mp h).resolve_left (Ne.symm hc)))

/-- The two parts of a text that has a separator. -/
def cut? (sep : α) (text : List α) : Option (List α × List α) :=
  if sep ∈ text then some (cut sep text) else none

/-- The parts before and behind the last separator. -/
def cutLast? (sep : α) (text : List α) : Option (List α × List α) :=
  (cut? sep text.reverse).map fun parts => (parts.2.reverse, parts.1.reverse)

theorem cut?_of_notMem (h : sep ∉ text) : cut? sep text = none := if_neg h

theorem cut?_append (h : sep ∉ before) (after : List α) :
    cut? sep (before ++ sep :: after) = some (before, after) := by
  rw [cut?, if_pos (by simp), cut_append h]

theorem notMem_cut (text : List α) : sep ∉ (cut sep text).1 := by
  induction text with
  | nil => simp [cut]
  | cons c text ih =>
    rw [cut]
    split_ifs with hc
    · simp
    · simpa [List.mem_cons, Ne.symm hc] using ih

theorem cut?_eq_some {after : List α} :
    cut? sep text = some (before, after) ↔ sep ∉ before ∧ text = before ++ sep :: after := by
  constructor
  · intro h
    unfold cut? at h
    split_ifs at h with hmem
    have hparts := Option.some.inj h
    have hwhole := append_cut hmem
    have hbefore : sep ∉ (cut sep text).1 := notMem_cut text
    rw [hparts] at hwhole hbefore
    exact ⟨hbefore, hwhole.symm⟩
  · rintro ⟨hbefore, rfl⟩
    exact cut?_append hbefore after

theorem cut?_eq_none : cut? sep text = none ↔ sep ∉ text := by
  unfold cut?
  split_ifs with h <;> simp [h]

theorem cutLast?_of_notMem (h : sep ∉ text) : cutLast? sep text = none := by
  rw [cutLast?, cut?_of_notMem (by simpa using h)]
  rfl

theorem cutLast?_append {after : List α} (h : sep ∉ after) (before : List α) :
    cutLast? sep (before ++ sep :: after) = some (before, after) := by
  have hreverse : (before ++ sep :: after).reverse = after.reverse ++ sep :: before.reverse := by simp
  rw [cutLast?, hreverse, cut?_append (by simpa using h)]
  simp

theorem cutLast?_eq_none : cutLast? sep text = none ↔ sep ∉ text := by
  rw [cutLast?, Option.map_eq_none_iff, cut?_eq_none, List.mem_reverse]

theorem cutLast?_eq_some {after : List α} :
    cutLast? sep text = some (before, after) ↔ sep ∉ after ∧ text = before ++ sep :: after := by
  constructor
  · intro h
    obtain ⟨⟨a, b⟩, hcut, hparts⟩ := Option.map_eq_some_iff.mp h
    obtain ⟨ha, htext⟩ := cut?_eq_some.mp hcut
    cases hparts
    refine ⟨by simpa using ha, ?_⟩
    rw [← List.reverse_reverse text, htext]
    simp
  · rintro ⟨hafter, rfl⟩
    exact cutLast?_append hafter before

/-- What stands before the first separator, and what stands behind it if there is one. -/
def cutOff (sep : α) (text : List α) : List α × Option (List α) :=
  match cut? sep text with
  | some (before, after) => (before, some after)
  | none => (text, none)

/-- A separator and what stands behind it, if there is one. -/
def behind (sep : α) : Option (List α) → List α
  | some after => sep :: after
  | none => []

theorem append_cutOff (sep : α) (text : List α) :
    (cutOff sep text).1 ++ behind sep (cutOff sep text).2 = text := by
  unfold cutOff
  split
  · rename_i before after h
    exact (cut?_eq_some.mp h).2.symm
  · exact List.append_nil text

theorem notMem_cutOff (text : List α) : sep ∉ (cutOff sep text).1 := by
  unfold cutOff
  split
  · rename_i before after h
    exact (cut?_eq_some.mp h).1
  · rename_i h
    exact cut?_eq_none.mp h

theorem cutOff_append (h : sep ∉ before) (after : Option (List α)) :
    cutOff sep (before ++ behind sep after) = (before, after) := by
  cases after with
  | none => rw [behind, List.append_nil, cutOff, cut?_of_notMem h]
  | some after => rw [behind, cutOff, cut?_append h]

end Cut

section Lengths
variable [BEq α] [LawfulBEq α] {sep : α}

omit [BEq α] [LawfulBEq α] in
theorem length_intercalate {pieces : List (List α)} (h : pieces ≠ []) :
    ([sep].intercalate pieces).length + 1 = (pieces.map List.length).sum + pieces.length := by
  induction pieces with
  | nil => exact absurd rfl h
  | cons piece pieces ih =>
    cases pieces with
    | nil => simp
    | cons next others =>
      have hnext := ih (by simp)
      simp only [List.intercalate_cons_cons, List.length_append, List.map_cons, List.sum_cons,
        List.length_cons, List.length_nil] at hnext ⊢
      omega

theorem length_splitOn (text : List α) :
    text.length + 1 = ((text.splitOn sep).map List.length).sum + (text.splitOn sep).length := by
  have h : ([sep].intercalate (text.splitOn sep)).length + 1 = _ :=
    length_intercalate (List.splitOn_ne_nil sep text)
  rwa [List.intercalate_splitOn] at h

omit [LawfulBEq α] in
/-- There is one piece more than there are separators. -/
theorem length_splitOn_eq_count (text : List α) :
    (text.splitOn sep).length = text.count sep + 1 := by
  induction text with
  | nil => simp
  | cons c text ih =>
    rw [List.splitOn_cons_eq_if_modifyHead, List.count_cons]
    split_ifs <;> simp [ih]

theorem count_intercalate {pieces : List (List α)} (h : pieces ≠ []) :
    ([sep].intercalate pieces).count sep + 1 =
      (pieces.map fun p => p.count sep).sum + pieces.length := by
  induction pieces with
  | nil => exact absurd rfl h
  | cons piece pieces ih =>
    cases pieces with
    | nil => simp
    | cons next others =>
      have hnext := ih (by simp)
      simp only [List.intercalate_cons_cons, List.count_append, List.map_cons, List.sum_cons,
        List.length_cons, List.count_singleton_self] at hnext ⊢
      omega

/-- Texts are equal only if their pieces are. -/
theorem intercalate_inj {pieces others : List (List α)} (hpieces : ∀ p ∈ pieces, sep ∉ p)
    (hothers : ∀ p ∈ others, sep ∉ p) (hne : pieces ≠ []) (hne' : others ≠ [])
    (h : [sep].intercalate pieces = [sep].intercalate others) : pieces = others := by
  have hsplit := congrArg (List.splitOn sep) h
  rwa [List.splitOn_intercalate sep hpieces hne, List.splitOn_intercalate sep hothers hne'] at hsplit

end Lengths

end FileService.Common.Delimited
