import FileService.Common.Text
import Mathlib.Tactic

/-!
# Texts that are made of segments

A pattern without the separator occurs in a text exactly when it occurs in one
of its segments, and ends the text exactly when it ends the last one. As a path
a text is resolved segment by segment: an empty segment and a dot stay where
they are, two dots lead one directory up, and a name leads one directory down.
-/
namespace FileService.Common.Text

theorem hasInfix_iff {pattern l : List Char} : hasInfix pattern l = true ↔ pattern <:+: l := by
  induction l with
  | nil => simp [hasInfix]
  | cons c l ih => simp [hasInfix, ih, List.infix_cons_iff]

theorem containsText_iff {s pattern : String} :
    containsText s pattern = true ↔ pattern.toList <:+: s.toList :=
  hasInfix_iff

def endsWith (s ending : String) : Bool := ending.toList.isSuffixOf s.toList

theorem endsWith_iff {s ending : String} : endsWith s ending = true ↔ ending.toList <:+ s.toList := by
  simp [endsWith]

section Segments
variable {α : Type} {pattern a b : List α} {c : α}

theorem mem_of_prefix_cons (hne : pattern ≠ []) (h : pattern <+: c :: b) : c ∈ pattern := by
  cases pattern with
  | nil => exact absurd rfl hne
  | cons d pattern =>
    obtain ⟨rfl, -⟩ := List.cons_prefix_cons.mp h
    exact List.mem_cons_self

theorem infix_segments_iff (hc : c ∉ pattern) (hne : pattern ≠ []) :
    pattern <:+: a ++ c :: b ↔ pattern <:+: a ∨ pattern <:+: b := by
  rw [List.infix_append_iff_ne_nil]
  constructor
  · rintro (ha | hb | ⟨l₁, l₂, -, hne₂, rfl, -, hprefix⟩)
    · exact .inl ha
    · rcases List.infix_cons_iff.mp hb with hprefix | hb
      · exact absurd (mem_of_prefix_cons hne hprefix) hc
      · exact .inr hb
    · exact absurd (List.mem_append_right l₁ (mem_of_prefix_cons hne₂ hprefix)) hc
  · rintro (ha | hb)
    · exact .inl ha
    · exact .inr (.inl (hb.trans (List.suffix_cons c b).isInfix))

theorem suffix_segments_iff (hc : c ∉ pattern) :
    pattern <:+ a ++ c :: b ↔ pattern <:+ b := by
  constructor
  · intro h
    rcases List.suffix_or_suffix_of_suffix h (List.suffix_append a (c :: b)) with h | h
    · rcases List.suffix_cons_iff.mp h with rfl | h
      · simp at hc
      · exact h
    · exact absurd (h.subset List.mem_cons_self) hc
  · exact fun h => h.trans ((List.suffix_cons c b).trans (List.suffix_append a (c :: b)))

/-- A text splits in one way at its first separator. -/
theorem segments_injective {a' b' : List α} (ha : c ∉ a) (ha' : c ∉ a')
    (h : a ++ c :: b = a' ++ c :: b') : a = a' ∧ b = b' := by
  induction a generalizing a' with
  | nil =>
    cases a' with
    | nil => exact ⟨rfl, (List.cons.inj h).2⟩
    | cons d a' => exact absurd (List.cons.inj h).1 (List.ne_of_not_mem_cons ha')
  | cons d a ih =>
    cases a' with
    | nil => exact absurd (List.cons.inj h).1.symm (List.ne_of_not_mem_cons ha)
    | cons e a' =>
      obtain ⟨rfl, htail⟩ := List.cons.inj h
      obtain ⟨rfl, rfl⟩ := ih (List.not_mem_of_not_mem_cons ha) (List.not_mem_of_not_mem_cons ha') htail
      exact ⟨rfl, rfl⟩

/-- A pattern with a character that does not occur in the text does not occur in it. -/
theorem not_infix_of_notMem (hmem : c ∈ pattern) (hc : c ∉ a) : ¬pattern <:+: a :=
  fun h => hc (h.subset hmem)

end Segments

end FileService.Common.Text

/-! ## Walking along a path -/

namespace FileService.Common.Walk
open FileService.Common.Text

def enter (here : List String) (segment : String) : List String :=
  if segment = "" ∨ segment = "." then here
  else if segment = ".." then here.dropLast
  else here ++ [segment]

/-- The directory that the segments lead to. -/
def walk (here : List String) (segments : List String) : List String := segments.foldl enter here

/-- A segment that leads down. -/
def Downward (segment : String) : Prop := segment ≠ "" ∧ segment ≠ "." ∧ segment ≠ ".."

variable {here segments steps : List String} {segment : String}

theorem walk_append : walk here (segments ++ steps) = walk (walk here segments) steps :=
  List.foldl_append

theorem enter_of_downward (h : Downward segment) : enter here segment = here ++ [segment] := by
  obtain ⟨hempty, hdot, hdots⟩ := h
  rw [enter, if_neg (not_or.mpr ⟨hempty, hdot⟩), if_neg hdots]

/-- Segments that lead down lead below the start at every step. -/
theorem walk_of_downward (h : ∀ segment ∈ segments, Downward segment) :
    walk here segments = here ++ segments := by
  induction segments generalizing here with
  | nil => exact (List.append_nil here).symm
  | cons segment segments ih =>
    have hrest : ∀ s ∈ segments, Downward s := fun s hs => h s (List.mem_cons_of_mem _ hs)
    calc walk here (segment :: segments)
        = walk (enter here segment) segments := rfl
      _ = here ++ [segment] ++ segments := by
        rw [enter_of_downward (h segment List.mem_cons_self), ih hrest]
      _ = here ++ segment :: segments := by simp

theorem walk_empty_segment : walk here (segments ++ [""]) = walk here segments := by
  rw [walk_append]
  rfl

/-- The segments of two paths, one behind the other. -/
theorem splitOnChar_slash (a b : String) :
    splitOnChar '/' (a ++ "/" ++ b) = splitOnChar '/' a ++ splitOnChar '/' b := by
  have hslash : "/".toList = ['/'] := rfl
  simp only [splitOnChar, String.toList_append, hslash, List.append_assoc, List.singleton_append,
    List.splitOn_append_cons_self, List.map_append]

end FileService.Common.Walk
