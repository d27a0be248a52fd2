import FileService.Common.Result

/-!
# Places in a JSON tree

A list of names leads from the root of a tree to a place in it. Writing to a
place makes objects of what is on the way; it leaves alone what stands at
places that are neither above nor below.
-/
namespace FileService.Common.Json.Value

def emptyObject : Value := object []

/-- What stands at a place. -/
def getAt : Value → List String → Option Value
  | v, [] => some v
  | v, name :: names => (v.find? name).bind fun w => w.getAt names

/-- The member if it is an object, or else a new one. -/
def objectAt (v : Value) (name : String) : Value :=
  match v.find? name with
  | some (object members) => object members
  | _ => emptyObject

def setAt : Value → List String → Value → Value
  | _, [], x => x
  | v, name :: names, x => v.set name ((v.objectAt name).setAt names x)

/-- One place is the other, or on the way to it. -/
def Related (p q : List String) : Prop := p <+: q ∨ q <+: p

instance (p q : List String) : Decidable (Related p q) := inferInstanceAs (Decidable (_ ∨ _))

section Places
variable {v x y : Value} {p q : List String} {name : String}

theorem Related.symm (h : Related p q) : Related q p := Or.symm h

theorem related_cons_iff : Related (name :: p) (name :: q) ↔ Related p q := by
  simp [Related, List.cons_prefix_cons]

@[simp] theorem getAt_nil : v.getAt [] = some v := by rw [getAt]

theorem getAt_cons : v.getAt (name :: p) = (v.find? name).bind fun w => w.getAt p := by rw [getAt]

theorem getAt_append : v.getAt (p ++ q) = (v.getAt p).bind fun w => w.getAt q := by
  induction p generalizing v with
  | nil => simp
  | cons name p ih =>
    rw [List.cons_append, getAt_cons, getAt_cons]
    cases v.find? name with
    | none => rfl
    | some w => exact ih

@[simp] theorem getAt_setAt : (v.setAt p x).getAt p = some x := by
  induction p generalizing v with
  | nil => simp [setAt]
  | cons name p ih => simp [setAt, getAt_cons, ih]

/-- Below a place the same stands in the object that is made of it. -/
theorem getAt_objectAt (hp : p ≠ []) :
    (v.objectAt name).getAt p = (v.find? name).bind fun w => w.getAt p := by
  obtain ⟨first, rest, rfl⟩ := List.exists_cons_of_ne_nil hp
  unfold objectAt
  cases v.find? name with
  | none => simp [getAt_cons, emptyObject, find?, members]
  | some w => cases w <;> simp [getAt_cons, emptyObject, find?, members]

theorem getAt_setAt_of_not_related (h : ¬Related p q) : (v.setAt p x).getAt q = v.getAt q := by
  induction p generalizing v q with
  | nil => exact absurd (.inl (List.nil_prefix)) h
  | cons first p ih =>
    cases q with
    | nil => exact absurd (.inr (List.nil_prefix)) h
    | cons second q =>
      by_cases hname : second = first
      · subst hname
        have hrest : ¬Related p q := fun hrel => h (related_cons_iff.mpr hrel)
        have hq : q ≠ [] := by
          rintro rfl
          exact hrest (.inr (List.nil_prefix))
        rw [setAt, getAt_cons, getAt_cons, find?_set, if_pos rfl, Option.bind_some, ih hrest,
          getAt_objectAt hq]
      · rw [setAt, getAt_cons, getAt_cons, find?_set, if_neg hname]

@[simp] theorem isObject_setAt (hp : p ≠ []) : (v.setAt p x).isObject = true := by
  obtain ⟨first, rest, rfl⟩ := List.exists_cons_of_ne_nil hp
  rw [setAt]
  rfl

/-! ## Leaves -/

/-- What stands there has nothing below it. -/
def IsLeaf (v : Value) (place : List String) (w : Value) : Prop :=
  v.getAt place = some w ∧ (w.isObject = true → w = emptyObject)

/-- Only objects have something below them. -/
theorem getAt_of_not_isObject {w : Value} (hw : w.isObject = false) (hq : q ≠ []) : w.getAt q = none := by
  obtain ⟨first, rest, rfl⟩ := List.exists_cons_of_ne_nil hq
  cases w <;> simp_all [getAt_cons, find?, members, isObject]

theorem isObject_of_getAt {w : Value} (hq : q ≠ []) (h : w.getAt q = some x) : w.isObject = true := by
  by_contra hw
  rw [getAt_of_not_isObject (Bool.of_not_eq_true hw) hq] at h
  cases h

theorem getAt_emptyObject (hq : q ≠ []) : emptyObject.getAt q = none := by
  obtain ⟨first, rest, rfl⟩ := List.exists_cons_of_ne_nil hq
  rw [getAt_cons]
  rfl

/-- There are objects on the way to a place, and at it if an object stands there. -/
theorem object_on_the_way {w : Value} (h : v.getAt q = some w) (hbelow : p <+: q)
    (hplace : p = q → w.isObject = true) : ∃ ms, v.getAt p = some (object ms) := by
  have hsome : ∃ u, v.getAt p = some u ∧ u.isObject = true := by
    obtain ⟨rest, rfl⟩ := hbelow
    by_cases hrest : rest = []
    · subst hrest
      rw [List.append_nil] at h hplace
      exact ⟨w, h, hplace rfl⟩
    · rw [getAt_append] at h
      obtain ⟨u, hu, hrest'⟩ := Option.bind_eq_some_iff.mp h
      exact ⟨u, hu, isObject_of_getAt hrest hrest'⟩
  obtain ⟨u, hu, hobject⟩ := hsome
  cases u with
  | object ms => exact ⟨ms, hu⟩
  | _ => cases hobject

/-! ## One writing after the other -/

def setAll (v : Value) (writes : List (List String × Value)) : Value :=
  writes.foldl (fun v w => v.setAt w.1 w.2) v

section Writes
variable {writes before after : List (List String × Value)} {w : List String × Value}

theorem setAll_append : v.setAll (before ++ after) = (v.setAll before).setAll after := by simp [setAll]

@[simp] theorem setAll_cons : v.setAll (w :: writes) = (v.setAt w.1 w.2).setAll writes := rfl

@[simp] theorem setAll_nil : v.setAll [] = v := rfl

theorem getAt_setAll_of_not_related (h : ∀ w ∈ writes, ¬Related w.1 q) :
    (v.setAll writes).getAt q = v.getAt q := by
  induction writes generalizing v with
  | nil => rfl
  | cons w writes ih =>
    rw [setAll_cons, ih fun u hu => h u (List.mem_cons_of_mem _ hu),
      getAt_setAt_of_not_related (h w List.mem_cons_self)]

/-- What is written last on the way to a place, at it or below it decides what stands there. -/
theorem getAt_setAll_last (h : ∀ u ∈ after, ¬Related u.1 q) :
    (v.setAll (before ++ w :: after)).getAt q = ((v.setAll before).setAt w.1 w.2).getAt q := by
  rw [setAll_append, setAll_cons, getAt_setAll_of_not_related h]

/-- Below the place of a writing there is what was written. -/
theorem getAt_setAt_append : (v.setAt p x).getAt (p ++ q) = x.getAt q := by
  rw [getAt_append, getAt_setAt, Option.bind_some]

/-- Above it there is an object. -/
theorem getAt_setAt_above (hq : q ≠ []) :
    ∃ w, (v.setAt (p ++ q) x).getAt p = some w ∧ w.isObject = true := by
  induction p generalizing v with
  | nil => exact ⟨_, getAt_nil, isObject_setAt hq⟩
  | cons name p ih =>
    obtain ⟨w, hw, hobject⟩ := ih (v := v.objectAt name)
    exact ⟨w, by rw [List.cons_append, setAt, getAt_cons, find?_set, if_pos rfl, Option.bind_some, hw],
      hobject⟩

/-! ### Vacant places -/

/-- There is nothing at the place, or an object. -/
def Vacant (v : Value) (place : List String) : Prop := ∀ w, v.getAt place = some w → w.isObject = true

theorem vacant_emptyObject (hq : q ≠ []) : Vacant emptyObject q := by
  intro w hw
  rw [getAt_emptyObject hq] at hw
  cases hw

/-- What is written above or below a place leaves it vacant. -/
theorem vacant_setAt (hrel : Related p q) (hne : p ≠ q) (hx : x.isObject = false) :
    Vacant (v.setAt p x) q := by
  intro w hw
  rcases hrel with ⟨rest, rfl⟩ | ⟨rest, rfl⟩
  · have hrest : rest ≠ [] := fun hnil => hne (by rw [hnil, List.append_nil])
    rw [getAt_setAt_append, getAt_of_not_isObject hx hrest] at hw
    cases hw
  · have hrest : rest ≠ [] := fun hnil => hne (by rw [hnil, List.append_nil])
    obtain ⟨u, hu, hobject⟩ := getAt_setAt_above (v := v) (p := q) (x := x) hrest
    rw [hu] at hw
    exact Option.some.inj hw ▸ hobject

theorem Vacant.setAll (h : Vacant v q) (hwrites : ∀ w ∈ writes, w.1 ≠ q ∧ w.2.isObject = false) :
    Vacant (v.setAll writes) q := by
  induction writes generalizing v with
  | nil => exact h
  | cons w writes ih =>
    rw [setAll_cons]
    refine ih ?_ fun u hu => hwrites u (List.mem_cons_of_mem _ hu)
    obtain ⟨hne, hobject⟩ := hwrites w List.mem_cons_self
    by_cases hrel : Related w.1 q
    · exact vacant_setAt hrel hne hobject
    · intro u hu
      rw [getAt_setAt_of_not_related hrel] at hu
      exact h u hu

end Writes
end Places

end FileService.Common.Json.Value
