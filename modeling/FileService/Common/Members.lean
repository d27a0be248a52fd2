import FileService.Common.Result
import Mathlib.Tactic

/-!
# Members of JSON objects

A writer sets the members it knows on an object of further members, and a reader
takes the known members out again. What is found under a name decides both.
-/
namespace FileService.Common.Json.Value

def isNull : Value → Bool
  | null => true
  | _ => false

section Without
variable {v w x : Value} {name k : String} {known : List String}

/-- The object of the members whose names are not known. -/
def without (v : Value) (known : List String) : Value :=
  object (v.members.filter fun m => !decide (m.1 ∈ known))

@[simp] theorem isObject_without : (v.without known).isObject = true := rfl

theorem lookup_filter (ms : List (String × Value)) :
    (ms.filter fun m => !decide (m.1 ∈ known)).lookup k = if k ∈ known then none else ms.lookup k := by
  induction ms with
  | nil => simp
  | cons m ms ih =>
    obtain ⟨m, y⟩ := m
    by_cases hk : k = m
    · subst hk
      by_cases hknown : k ∈ known
      · simp [hknown] at ih ⊢
        exact ih
      · simp [hknown]
    · have hb : (k == m) = false := by simpa using hk
      by_cases hm : m ∈ known
      · simp [hm, List.lookup_cons, hb, ih]
      · simp [hm, List.lookup_cons, hb, ih]

@[simp] theorem find?_without :
    (v.without known).find? k = if k ∈ known then none else v.find? k :=
  lookup_filter v.members

theorem filter_insertMember (hname : name ∈ known) (ms : List (String × Value)) :
    (insertMember name x ms).filter (fun m => !decide (m.1 ∈ known)) =
      ms.filter fun m => !decide (m.1 ∈ known) := by
  induction ms with
  | nil => simp [insertMember, hname]
  | cons m ms ih =>
    obtain ⟨m, y⟩ := m
    by_cases hm : m = name
    · subst hm
      simp [insertMember, hname]
    · by_cases hlt : name < m
      · simp [insertMember, hm, hlt, hname]
      · simp [insertMember, hm, hlt, List.filter_cons, ih]

/-- Setting a known member leaves the others as they are. -/
@[simp] theorem without_set (hname : name ∈ known) :
    (v.set name x).without known = v.without known :=
  congrArg object (filter_insertMember hname v.members)

@[simp] theorem without_without : (v.without known).without known = v.without known := by
  simp [without, members]

theorem isObject_of_find? (h : v.find? k = some x) : v.isObject = true := by
  cases v with
  | object ms => rfl
  | _ => cases h

end Without

section Branches
variable {v w : Value} {k : String} {known : List String} {c : Prop} [Decidable c]

@[simp] theorem find?_ite : (if c then v else w).find? k = if c then v.find? k else w.find? k :=
  apply_ite (find? · k) c v w

@[simp] theorem without_ite :
    (if c then v else w).without known = if c then v.without known else w.without known :=
  apply_ite (without · known) c v w

end Branches

/-! ## Values at a path -/

/-- The value at the end of a path of member names. -/
def at? : Value → List String → Option Value
  | v, [] => some v
  | v, name :: path => (v.find? name).bind (at? · path)

@[simp] theorem at?_nil (v : Value) : v.at? [] = some v := rfl

@[simp] theorem at?_cons (v : Value) (name : String) (path : List String) :
    v.at? (name :: path) = (v.find? name).bind (at? · path) := rfl

/-! ## Values that keep the members of others -/

/-- A null member or an empty text. -/
def isBlank : Value → Bool
  | null => true
  | string s => s == ""
  | _ => false

/-- The paths of a list that start with a name, without it. -/
def tails (name : String) (paths : List (List String)) : List (List String) :=
  paths.filterMap fun
    | m :: path => if m = name then some path else none
    | [] => none

/-- Every member of `v` at every level is in `w` with the same value; an object is compared member by
member. Blank members and those at or below an exempt path do not count. -/
def Keeps (exempt : List (List String)) (v w : Value) : Prop :=
  ∀ path x, v.at? path = some x → x.isBlank = true ∨ (∃ e ∈ exempt, e <+: path) ∨
    ∃ y, w.at? path = some y ∧ (x.isObject = true ∧ y.isObject = true ∨ x = y)

/-- A member is kept as far as it counts. -/
def KeepsMember (exempt : List (List String)) (name : String) (x : Value) (found : Option Value) :
    Prop :=
  x.isBlank = true ∨ [name] ∈ exempt ∨ ∃ y, found = some y ∧ Keeps (tails name exempt) x y

section Keeps
variable {exempt : List (List String)} {v w x y : Value} {name : String} {path : List String}

theorem mem_tails : path ∈ tails name exempt ↔ name :: path ∈ exempt := by
  simp only [tails, List.mem_filterMap]
  constructor
  · rintro ⟨e, he, hpath⟩
    cases e with
    | nil => cases hpath
    | cons m rest =>
      dsimp only at hpath
      split_ifs at hpath with hm
      cases hpath
      rwa [← hm]
  · exact fun h => ⟨_, h, if_pos rfl⟩

theorem keeps_refl (exempt : List (List String)) (v : Value) : Keeps exempt v v :=
  fun _ x hx => .inr (.inr ⟨x, hx, .inr rfl⟩)

theorem isBlank_eq_false_of_isObject (h : v.isObject = true) : v.isBlank = false := by
  cases v with
  | object ms => rfl
  | _ => cases h

theorem at?_eq_none_of_not_isObject (h : v.isObject = false) (hpath : path ≠ []) :
    v.at? path = none := by
  cases path with
  | nil => exact absurd rfl hpath
  | cons name path =>
    have hfind : v.find? name = none := by
      cases v with
      | object ms => cases h
      | _ => rfl
    rw [at?_cons, hfind]
    rfl

theorem keeps_of_not_isObject (h : x.isObject = false) (hblank : x.isBlank = false)
    (hexempt : [] ∉ exempt) : Keeps exempt x y ↔ x = y := by
  constructor
  · intro hkeeps
    rcases hkeeps [] x rfl with hb | ⟨e, he, hprefix⟩ | ⟨z, hz, hobject | hsame⟩
    · rw [hblank] at hb
      cases hb
    · rw [List.prefix_nil.mp hprefix] at he
      exact absurd he hexempt
    · rw [h] at hobject
      cases hobject.1
    · cases hz
      exact hsame
  · rintro rfl
    exact keeps_refl exempt x

/-- An object is kept by an object that keeps its members. -/
theorem keeps_object_iff (hv : v.isObject = true) (hexempt : [] ∉ exempt) :
    Keeps exempt v w ↔ w.isObject = true ∧
      ∀ name x, v.find? name = some x → KeepsMember exempt name x (w.find? name) := by
  constructor
  · intro h
    constructor
    · rcases h [] v rfl with hb | ⟨e, he, hprefix⟩ | ⟨z, hz, hobject | hsame⟩
      · rw [isBlank_eq_false_of_isObject hv] at hb
        cases hb
      · rw [List.prefix_nil.mp hprefix] at he
        exact absurd he hexempt
      · cases hz
        exact hobject.2
      · cases hz
        rwa [← hsame]
    · intro name x hx
      by_cases hblank : x.isBlank = true
      · exact .inl hblank
      by_cases hname : [name] ∈ exempt
      · exact .inr (.inl hname)
      refine .inr (.inr ?_)
      have hpaths : ∀ path z, x.at? path = some z → z.isBlank = true ∨
          (∃ e ∈ tails name exempt, e <+: path) ∨
          ∃ y, w.at? (name :: path) = some y ∧ (z.isObject = true ∧ y.isObject = true ∨ z = y) := by
        intro path z hz
        refine (h (name :: path) z (by rw [at?_cons, hx]; exact hz)).imp_right (.imp_left ?_)
        rintro ⟨e, he, hprefix⟩
        cases e with
        | nil => exact absurd he hexempt
        | cons m e =>
          obtain ⟨rfl, hrest⟩ := List.cons_prefix_cons.mp hprefix
          exact ⟨e, mem_tails.mpr he, hrest⟩
      have hfound : ∃ y, w.find? name = some y := by
        rcases hpaths [] x rfl with hb | ⟨e, he, hprefix⟩ | ⟨y, hy, -⟩
        · exact absurd hb hblank
        · rw [List.prefix_nil.mp hprefix] at he
          exact absurd (mem_tails.mp he) hname
        · cases hfind : w.find? name with
          | none =>
            rw [at?_cons, hfind] at hy
            cases hy
          | some y => exact ⟨y, rfl⟩
      obtain ⟨y, hy⟩ := hfound
      refine ⟨y, hy, ?_⟩
      intro path z hz
      simpa [hy] using hpaths path z hz
  · rintro ⟨hw, hmembers⟩ path x hx
    cases path with
    | nil =>
      cases hx
      exact .inr (.inr ⟨w, rfl, .inl ⟨hv, hw⟩⟩)
    | cons name path =>
      cases hfind : v.find? name with
      | none =>
        rw [at?_cons, hfind] at hx
        cases hx
      | some z =>
        rw [at?_cons, hfind] at hx
        rcases hmembers name z hfind with hblank | hname | ⟨y, hy, hkeeps⟩
        · have hnot : z.isObject = false := by
            cases z with
            | object ms => cases hblank
            | _ => rfl
          cases path with
          | nil =>
            cases hx
            exact .inl hblank
          | cons m path =>
            have hnone := at?_eq_none_of_not_isObject hnot (List.cons_ne_nil m path)
            exact absurd (hnone.symm.trans hx) nofun
        · exact .inr (.inl ⟨[name], hname, by simp⟩)
        · refine (hkeeps path x hx).imp_right (.imp ?_ ?_)
          · rintro ⟨e, he, hprefix⟩
            exact ⟨name :: e, mem_tails.mp he, List.cons_prefix_cons.mpr ⟨rfl, hprefix⟩⟩
          · rintro ⟨u, hu, hsame⟩
            exact ⟨u, by rw [at?_cons, hy]; exact hu, hsame⟩

/-- Where the unknown members are the same, only the known ones matter. -/
theorem keeps_known_iff {known : List String} (hv : v.isObject = true) (hw : w.isObject = true)
    (hexempt : [] ∉ exempt) (hunknown : ∀ name ∉ known, w.find? name = v.find? name) :
    Keeps exempt v w ↔
      ∀ name ∈ known, ∀ x, v.find? name = some x → KeepsMember exempt name x (w.find? name) := by
  rw [keeps_object_iff hv hexempt]
  constructor
  · exact fun h name _ => h.2 name
  · intro h
    refine ⟨hw, ?_⟩
    intro name x hx
    by_cases hname : name ∈ known
    · exact h name hname x hx
    · rw [hunknown name hname, hx]
      exact .inr (.inr ⟨x, rfl, keeps_refl _ x⟩)

end Keeps

end FileService.Common.Json.Value
