import Mathlib.Tactic
import Std.Data.ExtTreeMap.Lemmas

/-!
# Tables with a primary key and a source index

A table holds rows by partition and id. A second map finds the id of a row by
the partition and a source text that the row carries. The two maps are inverse
to each other in every table that the operations below build.
-/
namespace FileService.Common

structure SourceKey where
  partition : String
  source : String
deriving DecidableEq, Repr

namespace SourceKey

instance : Ord SourceKey where
  compare := compareLex (compareOn SourceKey.partition) (compareOn SourceKey.source)

instance : Std.TransOrd SourceKey :=
  inferInstanceAs (Std.TransCmp (compareLex (compareOn SourceKey.partition) (compareOn SourceKey.source)))

instance : Std.LawfulEqOrd SourceKey where
  eq_of_compare {a b} h := by
    have hlex : (compareLex (compareOn SourceKey.partition) (compareOn SourceKey.source)) a b = .eq := h
    simp only [compareLex, compareOn, Ordering.then_eq_eq, Std.LawfulEqCmp.compare_eq_iff_eq] at hlex
    cases a
    cases b
    simp_all

end SourceKey

/-- Rows by partition and id. -/
abbrev Buckets (β : Type) := Std.ExtTreeMap String (Std.ExtTreeMap String β)

namespace Buckets
variable {β : Type}

def get? (b : Buckets β) (p id : String) : Option β := b[p]?.bind (·[id]?)

def put (b : Buckets β) (p id : String) (row : β) : Buckets β :=
  b.insert p ((b[p]?.getD ∅).insert id row)

def remove (b : Buckets β) (p id : String) : Buckets β :=
  match b[p]? with
  | none => b
  | some bucket => b.insert p (bucket.erase id)

/-- Make sure the bucket of `p` exists. -/
def ensure (b : Buckets β) (p : String) : Buckets β :=
  match b[p]? with
  | none => b.insert p ∅
  | some _ => b

/-- The rows of a partition, in the order of their ids. -/
def entries (b : Buckets β) (p : String) : List (String × β) :=
  match b[p]? with
  | none => []
  | some bucket => bucket.toList

@[simp] theorem get?_empty (p id : String) : get? (∅ : Buckets β) p id = none := by
  simp [get?]

theorem get?_put (b : Buckets β) (p id q k : String) (row : β) :
    (b.put p id row).get? q k = if p = q ∧ id = k then some row else b.get? q k := by
  by_cases hp : p = q
  · subst hp
    cases hb : b[p]? with
    | none =>
      by_cases hid : id = k <;> simp [get?, put, hb, hid]
    | some bucket =>
      by_cases hid : id = k <;> simp [get?, put, hb, hid, Std.ExtTreeMap.getElem?_insert]
  · simp [get?, put, Std.ExtTreeMap.getElem?_insert, hp]

theorem get?_remove (b : Buckets β) (p id q k : String) :
    (b.remove p id).get? q k = if p = q ∧ id = k then none else b.get? q k := by
  cases hb : b[p]? with
  | none =>
    by_cases hp : p = q
    · subst hp
      simp [get?, remove, hb]
    · simp [remove, hb, hp]
  | some bucket =>
    by_cases hp : p = q
    · subst hp
      by_cases hid : id = k <;>
        simp [get?, remove, hb, hid, Std.ExtTreeMap.getElem?_erase]
    · simp [get?, remove, hb, hp, Std.ExtTreeMap.getElem?_insert]

theorem get?_ensure (b : Buckets β) (p q k : String) : (b.ensure p).get? q k = b.get? q k := by
  cases hb : b[p]? with
  | none =>
    by_cases hp : p = q
    · subst hp
      simp [get?, ensure, hb]
    · simp [get?, ensure, hb, Std.ExtTreeMap.getElem?_insert, hp]
  | some bucket => simp [ensure, hb]

theorem mem_entries {b : Buckets β} {p id : String} {row : β} :
    (id, row) ∈ b.entries p ↔ b.get? p id = some row := by
  cases hb : b[p]? with
  | none => simp [entries, get?, hb]
  | some bucket => simp [entries, get?, hb, Std.ExtTreeMap.mem_toList_iff_getElem?_eq_some]

theorem compare_text_eq_lt {a b : String} : compare a b = .lt ↔ a < b := by
  change (if a < b then Ordering.lt else if a = b then .eq else .gt) = .lt ↔ a < b
  split_ifs with hlt heq <;> simp [hlt]

/-- The rows of a partition are listed in the order of their ids. -/
theorem entries_sorted (b : Buckets β) (p : String) :
    (b.entries p).Pairwise fun e e' => e.1 < e'.1 := by
  unfold entries
  split
  · exact List.Pairwise.nil
  · exact Std.ExtTreeMap.ordered_keys_toList.imp fun h => compare_text_eq_lt.mp h

/-- In sorted rows, those behind the last row of a page are the ones that follow the page. -/
theorem filter_after_page {rows : List (String × β)} {n : Nat} {e : String × β}
    (hsorted : rows.Pairwise fun a b => a.1 < b.1) (hlast : (rows.take n).getLast? = some e) :
    (rows.filter fun a => decide (e.1 < a.1)) = rows.drop n := by
  have hsplit := hsorted
  rw [← List.take_append_drop n rows, List.pairwise_append] at hsplit
  obtain ⟨hpage, -, hacross⟩ := hsplit
  have he : e ∈ rows.take n := List.mem_of_getLast? hlast
  conv_lhs => rw [← List.take_append_drop n rows, List.filter_append]
  rw [List.filter_eq_nil_iff.mpr, List.nil_append, List.filter_eq_self.mpr]
  · intro a ha
    simpa using hacross e he a ha
  · intro a ha
    obtain ⟨init, hinit⟩ := List.getLast?_eq_some_iff.mp hlast
    rw [hinit, List.pairwise_append] at hpage
    rw [hinit, List.mem_append, List.mem_singleton] at ha
    simp only [decide_eq_true_eq]
    rcases ha with ha | rfl
    · exact fun h => String.lt_irrefl _ (String.lt_trans h (hpage.2.2 a ha e (by simp)))
    · exact String.lt_irrefl _

end Buckets

/-- A table of rows of type `β`, found by id or by source. -/
structure Indexed (β : Type) where
  byId : Buckets β := ∅
  sourceIndex : Std.ExtTreeMap SourceKey String := ∅

namespace Indexed
variable {β : Type} (sourceOf : β → String)

def findBySource (t : Indexed β) (p source : String) : Option β :=
  t.sourceIndex[(⟨p, source⟩ : SourceKey)]?.bind (t.byId.get? p)

/-- Each row is indexed by its source, and by nothing else. -/
def Inverse (t : Indexed β) : Prop :=
  ∀ p source id, t.sourceIndex[(⟨p, source⟩ : SourceKey)]? = some id ↔
    ∃ row, t.byId.get? p id = some row ∧ sourceOf row = source

variable {sourceOf} {t : Indexed β}

theorem Inverse.findBySource (ht : t.Inverse sourceOf) {p source : String} {row : β} :
    t.findBySource p source = some row ↔
      ∃ id, t.byId.get? p id = some row ∧ sourceOf row = source := by
  unfold Indexed.findBySource
  constructor
  · intro h
    obtain ⟨id, hid, hrow⟩ := Option.bind_eq_some_iff.mp h
    obtain ⟨row', hrow', hsource⟩ := (ht p source id).mp hid
    rw [hrow'] at hrow
    cases hrow
    exact ⟨id, hrow', hsource⟩
  · rintro ⟨id, hrow, hsource⟩
    rw [(ht p source id).mpr ⟨row, hrow, hsource⟩]
    exact hrow

/-- No two rows of a partition carry one source. -/
theorem Inverse.id_unique (ht : t.Inverse sourceOf) {p id id' : String} {row row' : β}
    (h : t.byId.get? p id = some row) (h' : t.byId.get? p id' = some row')
    (hsource : sourceOf row = sourceOf row') : id = id' := by
  have hid := (ht p (sourceOf row) id).mpr ⟨row, h, rfl⟩
  have hid' := (ht p (sourceOf row) id').mpr ⟨row', h', hsource.symm⟩
  rw [hid] at hid'
  exact Option.some.inj hid'

theorem inverse_empty : Inverse sourceOf ({} : Indexed β) := by
  intro p source id
  simp

/-- Replace the row of an id; its old source is freed, its new one must be free or its own. -/
def save (sourceOf : β → String) (t : Indexed β) (p id : String) (row : β) : Indexed β :=
  { byId := t.byId.put p id row
    sourceIndex :=
      (match t.byId.get? p id with
        | some old =>
          if sourceOf old = sourceOf row then t.sourceIndex else t.sourceIndex.erase ⟨p, sourceOf old⟩
        | none => t.sourceIndex).insert ⟨p, sourceOf row⟩ id }

def delete (sourceOf : β → String) (t : Indexed β) (p id : String) : Indexed β :=
  match t.byId.get? p id with
  | some old => { byId := t.byId.remove p id, sourceIndex := t.sourceIndex.erase ⟨p, sourceOf old⟩ }
  | none => t

theorem get?_save (t : Indexed β) (p id q k : String) (row : β) :
    (t.save sourceOf p id row).byId.get? q k =
      if p = q ∧ id = k then some row else t.byId.get? q k :=
  Buckets.get?_put _ _ _ _ _ _

theorem get?_delete (t : Indexed β) (p id q k : String) :
    (t.delete sourceOf p id).byId.get? q k = if p = q ∧ id = k then none else t.byId.get? q k := by
  unfold delete
  cases hold : t.byId.get? p id with
  | some old => exact Buckets.get?_remove _ _ _ _ _
  | none =>
    by_cases h : p = q ∧ id = k
    · obtain ⟨rfl, rfl⟩ := h
      simp [hold]
    · simp [h]

theorem Inverse.save (ht : t.Inverse sourceOf) {p id : String} {row : β}
    (hfree : ∀ k, t.sourceIndex[(⟨p, sourceOf row⟩ : SourceKey)]? = some k → k = id) :
    (t.save sourceOf p id row).Inverse sourceOf := by
  intro q source k
  have hown : ∀ old, t.byId.get? q k = some old → p = q → sourceOf old = sourceOf row → k = id := by
    intro old hk hp hs
    subst hp
    exact hfree k ((ht p (sourceOf row) k).mpr ⟨old, hk, hs⟩)
  rw [get?_save]
  simp only [Indexed.save, Std.ExtTreeMap.getElem?_insert, Std.LawfulEqCmp.compare_eq_iff_eq,
    SourceKey.mk.injEq]
  by_cases hnew : p = q ∧ sourceOf row = source
  · obtain ⟨rfl, rfl⟩ := hnew
    by_cases hid : id = k
    · simp [hid]
    · have hne : ¬ ∃ old, t.byId.get? p k = some old ∧ sourceOf old = sourceOf row := by
        rintro ⟨old, hk, hs⟩
        exact hid (hown old hk rfl hs).symm
      simpa [hid] using hne
  · rw [if_neg hnew]
    by_cases hid : p = q ∧ id = k
    · obtain ⟨rfl, rfl⟩ := hid
      have hs : sourceOf row ≠ source := fun hs => hnew ⟨rfl, hs⟩
      cases hold : t.byId.get? p id with
      | none =>
        have hnone := (ht p source id).not
        simp only [hold, reduceCtorEq, false_and, exists_false, not_false_eq_true, iff_true] at hnone
        simpa [hs] using hnone
      | some old =>
        have hiff := ht p source id
        rw [hold] at hiff
        by_cases hsame : sourceOf old = sourceOf row
        · have hne : sourceOf old ≠ source := fun h => hs (hsame ▸ h)
          simpa [hsame, hs, hne] using hiff
        · by_cases hsrc : sourceOf old = source
          · rw [hsrc] at hsame
            simp [hsrc, hs, hsame]
          · simpa [hsame, Std.ExtTreeMap.getElem?_erase, hsrc, hs] using hiff
    · rw [if_neg hid]
      cases hold : t.byId.get? p id with
      | none => exact ht q source k
      | some old =>
        by_cases hsame : sourceOf old = sourceOf row
        · simpa [hsame] using ht q source k
        · by_cases hkey : p = q ∧ sourceOf old = source
          · obtain ⟨rfl, rfl⟩ := hkey
            have hne : ¬ ∃ r, t.byId.get? p k = some r ∧ sourceOf r = sourceOf old := by
              rintro ⟨r, hk, hs⟩
              exact hid ⟨rfl, ht.id_unique hold hk hs.symm⟩
            simpa [hsame, Std.ExtTreeMap.getElem?_erase] using hne
          · simpa [hsame, Std.ExtTreeMap.getElem?_erase, hkey] using ht q source k

theorem Inverse.delete (ht : t.Inverse sourceOf) (p id : String) :
    (t.delete sourceOf p id).Inverse sourceOf := by
  intro q source k
  rw [get?_delete]
  unfold Indexed.delete
  cases hold : t.byId.get? p id with
  | none =>
    by_cases h : p = q ∧ id = k
    · obtain ⟨rfl, rfl⟩ := h
      simpa [hold] using ht p source id
    · simpa [h] using ht q source k
  | some old =>
    by_cases h : p = q ∧ id = k
    · obtain ⟨rfl, rfl⟩ := h
      have hiff := ht p source id
      rw [hold] at hiff
      by_cases hs : sourceOf old = source
      · simp [hs]
      · simpa [Std.ExtTreeMap.getElem?_erase, hs] using hiff
    · by_cases hkey : p = q ∧ sourceOf old = source
      · obtain ⟨rfl, rfl⟩ := hkey
        have hne : ¬ ∃ r, t.byId.get? p k = some r ∧ sourceOf r = sourceOf old := by
          rintro ⟨r, hk, hs⟩
          exact h ⟨rfl, ht.id_unique hold hk hs.symm⟩
        have hid : id ≠ k := fun hid => h ⟨rfl, hid⟩
        simpa [Std.ExtTreeMap.getElem?_erase, hid] using hne
      · simpa [Std.ExtTreeMap.getElem?_erase, h, hkey] using ht q source k

theorem Inverse.findBySource_save (ht : t.Inverse sourceOf) {p id : String} {row : β}
    (hfree : ∀ k, t.sourceIndex[(⟨p, sourceOf row⟩ : SourceKey)]? = some k → k = id)
    (q source : String) :
    (t.save sourceOf p id row).findBySource q source =
      if p = q ∧ sourceOf row = source then some row
      else if p = q ∧ (t.byId.get? p id).map sourceOf = some source then none
      else t.findBySource q source := by
  ext r
  rw [(ht.save hfree).findBySource]
  simp only [get?_save]
  by_cases hnew : p = q ∧ sourceOf row = source
  · obtain ⟨rfl, rfl⟩ := hnew
    simp only [true_and, if_true, Option.some.injEq]
    constructor
    · rintro ⟨k, hk, hs⟩
      by_cases hid : id = k
      · simpa [hid] using hk
      · simp only [hid, if_false] at hk
        exact absurd (hfree k ((ht _ _ _).mpr ⟨r, hk, hs⟩)).symm hid
    · rintro rfl
      exact ⟨id, by simp, rfl⟩
  · rw [if_neg hnew]
    by_cases hold : p = q ∧ (t.byId.get? p id).map sourceOf = some source
    · rw [if_pos hold]
      obtain ⟨rfl, hmap⟩ := hold
      obtain ⟨old, hget, hsrc⟩ := Option.map_eq_some_iff.mp hmap
      simp only [reduceCtorEq, iff_false, not_exists, not_and]
      intro k hk hs
      by_cases hid : id = k
      · simp only [hid, and_self, if_true, Option.some.injEq] at hk
        exact hnew ⟨rfl, hk ▸ hs⟩
      · simp only [hid, and_false, if_false] at hk
        exact hid (ht.id_unique hget hk (hsrc.trans hs.symm))
    · rw [if_neg hold, ht.findBySource]
      constructor
      · rintro ⟨k, hk, hs⟩
        by_cases hid : p = q ∧ id = k
        · simp only [hid, and_self, if_true, Option.some.injEq] at hk
          exact absurd ⟨hid.1, hk ▸ hs⟩ hnew
        · rw [if_neg hid] at hk
          exact ⟨k, hk, hs⟩
      · rintro ⟨k, hk, hs⟩
        by_cases hid : p = q ∧ id = k
        · obtain ⟨rfl, rfl⟩ := hid
          exact absurd ⟨rfl, by simp [hk, hs]⟩ hold
        · exact ⟨k, by rw [if_neg hid]; exact hk, hs⟩

theorem Inverse.findBySource_delete (ht : t.Inverse sourceOf) (p id q source : String) :
    (t.delete sourceOf p id).findBySource q source =
      if p = q ∧ (t.byId.get? p id).map sourceOf = some source then none
      else t.findBySource q source := by
  ext r
  rw [(ht.delete p id).findBySource]
  simp only [get?_delete]
  by_cases hold : p = q ∧ (t.byId.get? p id).map sourceOf = some source
  · rw [if_pos hold]
    obtain ⟨rfl, hmap⟩ := hold
    obtain ⟨old, hget, hsrc⟩ := Option.map_eq_some_iff.mp hmap
    simp only [reduceCtorEq, iff_false, not_exists, not_and]
    intro k hk hs
    by_cases hid : id = k
    · simp [hid] at hk
    · simp only [hid, and_false, if_false] at hk
      exact hid (ht.id_unique hget hk (hsrc.trans hs.symm))
  · rw [if_neg hold, ht.findBySource]
    constructor
    · rintro ⟨k, hk, hs⟩
      by_cases hid : p = q ∧ id = k
      · simp [hid] at hk
      · rw [if_neg hid] at hk
        exact ⟨k, hk, hs⟩
    · rintro ⟨k, hk, hs⟩
      by_cases hid : p = q ∧ id = k
      · obtain ⟨rfl, rfl⟩ := hid
        exact absurd ⟨rfl, by simp [hk, hs]⟩ hold
      · exact ⟨k, by rw [if_neg hid]; exact hk, hs⟩

end Indexed

end FileService.Common
