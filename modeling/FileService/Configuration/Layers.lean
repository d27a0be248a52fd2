import FileService.Configuration.Load

/-!
# Which layer sets a field

The command line stands above the environment, the environment above the file,
and the file above the default. The tree that the layers are written into has
the text of the highest one at the place of a field, as long as nothing is
written above or below that place afterwards.
-/
namespace FileService.Configuration
open FileService.Common FileService.Common.Json FileService.Common.DottedPath
open FileService.Common.Json.Value (emptyObject Related getAt_setAll_of_not_related getAt_setAll_last)

section Layers
variable (platform : Platform) (req : LoadRequest)

/-- The tree of the file. -/
def fileTree : Value := (fromFile platform req).1

/-- The last text that the command line has for a path. -/
def cliText (path : String) : Option String :=
  (req.cliOverrides.reverse.find? fun given => given.1 = path).map Prod.snd

def envText (path : String) : Option String :=
  if req.envEnabled then req.lookup platform (envNameFor path req.envPrefix) else none

/-- The highest layer that sets a field, and what it has. -/
def setting (f : FieldSpec) : Option (Source × Value) :=
  match cliText req f.path, envText platform req f.path, (fileTree platform req).getAt (segments f.path) with
  | some text, _, _ => some (.cli, .string text)
  | none, some text, _ => some (.env, .string text)
  | none, none, some v => some (.file, v)
  | none, none, none => if f.hasDefault then some (.default, .string f.defaultValue) else none

/-- The texts of the layers above the file, with their paths, from the lowest to the highest. -/
def overrides : List (String × String) :=
  (if req.envEnabled then
    req.schema.fields.filterMap fun f => (req.lookup platform (envNameFor f.path req.envPrefix)).map (f.path, ·)
  else []) ++ req.cliOverrides.filter fun given => req.schema.isAllowedPath given.1

/-- The highest of them at a place, above it or below it. -/
def override? (place : List String) : Option (String × String) :=
  (overrides platform req).reverse.find? fun o => Related (segments o.1) place

/-- Nothing is written above or below the place of a field after the field itself. -/
def Undisturbed (path : String) : Prop := ∀ o, override? platform req (segments path) = some o → o.1 = path

/-- The layers have an object at the place. -/
def HoldsObject (place : List String) : Prop :=
  match override? platform req place with
  | none => ∃ ms, (fileTree platform req).getAt place = some (.object ms)
  | some o => segments o.1 ≠ place ∧ place <+: segments o.1

end Layers

/-! ## The tree of the layers -/

def writeOf (o : String × String) : List String × Value := (segments o.1, .string o.2)

section Merged
variable {platform : Platform} {req : LoadRequest} {l : Layering} {path : String} {place : List String}
  {f : FieldSpec} {o : String × String}

theorem mem_find? {schema : Schema} (h : schema.find? path = some f) : f ∈ schema.fields ∧ f.path = path := by
  have hmem := List.mem_of_find?_eq_some h
  exact ⟨List.mem_reverse.mp hmem, by simpa using List.find?_some h⟩

theorem exists_find? {schema : Schema} (hf : f ∈ schema.fields) : ∃ g, schema.find? f.path = some g := by
  rw [← Option.isSome_iff_exists, Schema.find?, List.find?_isSome]
  exact ⟨f, List.mem_reverse.mpr hf, by simp⟩

theorem isAllowedPath_of_mem {schema : Schema} (hf : f ∈ schema.fields) :
    schema.isAllowedPath f.path = true := by
  obtain ⟨g, hg⟩ := exists_find? hf
  simp [Schema.isAllowedPath, hg]

theorem foldl_envStep {fields : List FieldSpec} : (fields.foldl (envStep platform req) l).merged =
    l.merged.setAll ((fields.filterMap fun f =>
      (req.lookup platform (envNameFor f.path req.envPrefix)).map (f.path, ·)).map writeOf) := by
  induction fields generalizing l with
  | nil => rfl
  | cons f fields ih =>
    rw [List.foldl_cons, ih, List.filterMap_cons, envStep]
    cases req.lookup platform (envNameFor f.path req.envPrefix) <;> rfl

theorem foldl_cliStep {schema : Schema} {given : List (String × String)} :
    (given.foldl (cliStep schema) l).merged =
      l.merged.setAll ((given.filter fun g => schema.isAllowedPath g.1).map writeOf) := by
  induction given generalizing l with
  | nil => rfl
  | cons g given ih =>
    rw [List.foldl_cons, ih, List.filter_cons, cliStep]
    split_ifs <;> rfl

theorem layering_merged : (layering platform req).merged =
    (fileTree platform req).setAll ((overrides platform req).map writeOf) := by
  rw [layering, foldl_cliStep, overrides, List.map_append, Value.setAll_append, envLayer]
  split_ifs
  · rw [foldl_envStep]
    rfl
  · rfl

/-- Nothing is written near the place. -/
theorem merged_of_override?_none (h : override? platform req place = none) :
    (layering platform req).merged.getAt place = (fileTree platform req).getAt place := by
  rw [override?, List.find?_eq_none] at h
  rw [layering_merged, getAt_setAll_of_not_related]
  intro w hw
  obtain ⟨o, ho, rfl⟩ := List.mem_map.mp hw
  simpa [writeOf] using h o (List.mem_reverse.mpr ho)

/-- The last writing near the place decides. -/
theorem merged_of_override? (h : override? platform req place = some o) :
    Related (segments o.1) place ∧ ∃ v : Value,
      (layering platform req).merged.getAt place = (v.setAt (segments o.1) (.string o.2)).getAt place := by
  obtain ⟨hrel, later, earlier, hsplit, hlater⟩ := List.find?_eq_some_iff_append.mp h
  have hall : overrides platform req = earlier.reverse ++ o :: later.reverse := by
    rw [← List.reverse_reverse (overrides platform req), hsplit]
    simp
  refine ⟨by simpa using hrel, (fileTree platform req).setAll (earlier.reverse.map writeOf), ?_⟩
  rw [layering_merged, hall, List.map_append, List.map_cons, getAt_setAll_last]
  · rfl
  · intro w hw
    obtain ⟨u, hu, rfl⟩ := List.mem_map.mp hw
    simpa [writeOf] using hlater u (List.mem_reverse.mp hu)

/-- At its own place an override stands. -/
theorem merged_own (h : override? platform req place = some o) (hplace : segments o.1 = place) :
    (layering platform req).merged.getAt place = some (.string o.2) := by
  obtain ⟨-, v, hv⟩ := merged_of_override? h
  rw [hv, hplace, Value.getAt_setAt]

/-- Below its place there is nothing. -/
theorem merged_below (h : override? platform req place = some o) (hplace : segments o.1 ≠ place)
    (hbelow : segments o.1 <+: place) : (layering platform req).merged.getAt place = none := by
  obtain ⟨-, v, hv⟩ := merged_of_override? h
  obtain ⟨rest, rfl⟩ := hbelow
  have hrest : rest ≠ [] := fun hnil => hplace (by rw [hnil, List.append_nil])
  rw [hv, Value.getAt_setAt_append, Value.getAt_of_not_isObject rfl hrest]

/-- Above its place there is an object. -/
theorem merged_above (h : override? platform req place = some o) (hplace : segments o.1 ≠ place)
    (habove : place <+: segments o.1) :
    ∃ ms, (layering platform req).merged.getAt place = some (.object ms) := by
  obtain ⟨-, v, hv⟩ := merged_of_override? h
  obtain ⟨rest, hrest⟩ := habove
  have hne : rest ≠ [] := fun hnil => hplace (by rw [← hrest, hnil, List.append_nil])
  rw [hv, ← hrest]
  obtain ⟨w, hw, hobject⟩ := Value.getAt_setAt_above (v := v) (p := place) (x := .string o.2) hne
  cases w with
  | object ms => exact ⟨ms, hw⟩
  | _ => cases hobject

/-- A place that the layers leave without a value, if there is no object. -/
theorem merged_of_foreign (h : override? platform req place = some o) (hplace : segments o.1 ≠ place)
    (hobject : ∀ ms, (layering platform req).merged.getAt place ≠ some (.object ms)) :
    (layering platform req).merged.getAt place = none := by
  rcases (merged_of_override? h).1 with hbelow | habove
  · exact merged_below h hplace hbelow
  · obtain ⟨ms, hms⟩ := merged_above h hplace habove
    exact absurd hms (hobject ms)

theorem holdsObject_iff : HoldsObject platform req place ↔
    ∃ ms, (layering platform req).merged.getAt place = some (.object ms) := by
  unfold HoldsObject
  cases h : override? platform req place with
  | none => rw [merged_of_override?_none h]
  | some o =>
    dsimp only
    by_cases hplace : segments o.1 = place
    · rw [merged_own h hplace]
      simp [hplace]
    · rcases (merged_of_override? h).1 with hbelow | habove
      · rw [merged_below h hplace hbelow]
        refine iff_of_false (fun hboth => hplace ?_) (by simp)
        exact hbelow.eq_of_length (hbelow.length_le.antisymm hboth.2.length_le)
      · exact iff_of_true ⟨hplace, habove⟩ (merged_above h hplace habove)

end Merged

/-! ## The highest layer -/

section Highest
variable {platform : Platform} {req : LoadRequest} {path text : String} {f : FieldSpec}
  {o : String × String} {source : Source} {raw : Value}

theorem mem_cli (hf : f ∈ req.schema.fields) (h : cliText req f.path = some text) :
    (f.path, text) ∈ overrides platform req := by
  obtain ⟨given, hgiven, rfl⟩ := Option.map_eq_some_iff.mp h
  have hpath : given.1 = f.path := by simpa using List.find?_some hgiven
  have hmem := List.mem_reverse.mp (List.mem_of_find?_eq_some hgiven)
  refine List.mem_append_right _ (List.mem_filter.mpr ⟨?_, isAllowedPath_of_mem hf⟩)
  rwa [← hpath]

theorem mem_env (hf : f ∈ req.schema.fields) (h : envText platform req f.path = some text) :
    (f.path, text) ∈ overrides platform req := by
  unfold envText at h
  split_ifs at h with henabled
  refine List.mem_append_left _ ?_
  rw [if_pos henabled]
  exact List.mem_filterMap.mpr ⟨f, hf, by rw [h]; rfl⟩

/-- An override of a path is the text of the command line or of the environment for it. -/
theorem text_of_mem (h : (path, text) ∈ overrides platform req) :
    (∃ t, cliText req path = some t) ∨ envText platform req path = some text := by
  rcases List.mem_append.mp h with henv | hcli
  · split_ifs at henv with henabled
    · obtain ⟨g, -, hg⟩ := List.mem_filterMap.mp henv
      obtain ⟨t, ht, hpair⟩ := Option.map_eq_some_iff.mp hg
      cases hpair
      exact .inr (by rw [envText, if_pos henabled, ht])
    · cases henv
  · left
    have hsome : (req.cliOverrides.reverse.find? fun given => given.1 = path).isSome = true := by
      rw [List.find?_isSome]
      exact ⟨(path, text), List.mem_reverse.mpr (List.mem_filter.mp hcli).1, by simp⟩
    obtain ⟨given, hgiven⟩ := Option.isSome_iff_exists.mp hsome
    exact ⟨given.2, by rw [cliText, hgiven]; rfl⟩

/-- What is found first and has a stronger property is found first with that one as well. -/
theorem find?_of_imp {α : Type} {p q : α → Bool} {l : List α} {a : α} (h : l.find? p = some a)
    (ha : q a = true) (himp : ∀ b, q b = true → p b = true) : l.find? q = some a := by
  obtain ⟨-, before, after, rfl, hbefore⟩ := List.find?_eq_some_iff_append.mp h
  refine List.find?_eq_some_iff_append.mpr ⟨ha, before, after, rfl, fun b hb => ?_⟩
  have hb' := hbefore b hb
  rw [Bool.not_eq_true', Bool.eq_false_iff] at hb' ⊢
  exact fun hq => hb' (himp b hq)

/-- The last override near the place of a field is its highest text, if it is one of its own. -/
theorem text_of_override? (hf : f ∈ req.schema.fields)
    (h : override? platform req (segments f.path) = some o) (hown : o.1 = f.path) :
    cliText req f.path = some o.2 ∨ cliText req f.path = none ∧ envText platform req f.path = some o.2 := by
  have hlast : (overrides platform req).reverse.find? (fun o => o.1 = f.path) = some o := by
    refine find?_of_imp h (by simpa using hown) fun b hb => ?_
    simp only [decide_eq_true_eq] at hb ⊢
    rw [hb]
    exact .inl (List.prefix_refl _)
  cases hcli : cliText req f.path with
  | none =>
    refine .inr ⟨rfl, ?_⟩
    have hmem : (f.path, o.2) ∈ overrides platform req := by
      rw [← hown]
      exact List.mem_reverse.mp (List.mem_of_find?_eq_some h)
    rcases text_of_mem hmem with ⟨t, ht⟩ | henv
    · rw [hcli] at ht
      cases ht
    · exact henv
  | some text =>
    obtain ⟨given, hgiven, rfl⟩ := Option.map_eq_some_iff.mp hcli
    have hallowed : (req.cliOverrides.filter fun given => req.schema.isAllowedPath given.1).reverse.find?
        (fun o => o.1 = f.path) = some given := by
      rw [← List.filter_reverse, List.find?_filter]
      refine (List.find?_congr fun u _ => ?_).trans hgiven
      by_cases hu : u.1 = f.path
      · simp [hu, isAllowedPath_of_mem hf]
      · simp [hu]
    rw [overrides, List.reverse_append, List.find?_append, hallowed, Option.some_or] at hlast
    rw [Option.some.inj hlast]
    exact .inl rfl

/-- The tree of the layers has what the highest layer says, if that is not disturbed. -/
theorem merged_of_setting (hf : f ∈ req.schema.fields) (hset : setting platform req f = some (source, raw))
    (hlayer : source ≠ .default) (h : Undisturbed platform req f.path) :
    (layering platform req).merged.getAt (segments f.path) = some raw := by
  have hown : ∀ text, (f.path, text) ∈ overrides platform req →
      ∃ o, override? platform req (segments f.path) = some o := by
    intro text hmem
    rw [← Option.isSome_iff_exists, override?, List.find?_isSome]
    exact ⟨_, List.mem_reverse.mpr hmem, by simp [Related]⟩
  unfold setting at hset
  split at hset
  · rename_i text hcli
    obtain ⟨o, ho⟩ := hown text (mem_cli hf hcli)
    have hpath := h o ho
    cases hset
    rw [merged_own ho (by rw [hpath])]
    rcases text_of_override? hf ho hpath with htext | ⟨hnone, -⟩
    · rw [hcli] at htext
      rw [Option.some.inj htext]
    · rw [hcli] at hnone
      cases hnone
  · rename_i text hcli henv
    obtain ⟨o, ho⟩ := hown text (mem_env hf henv)
    have hpath := h o ho
    cases hset
    rw [merged_own ho (by rw [hpath])]
    rcases text_of_override? hf ho hpath with htext | ⟨-, htext⟩
    · rw [hcli] at htext
      cases htext
    · rw [henv] at htext
      rw [Option.some.inj htext]
  · rename_i v hcli henv hfile
    cases hset
    cases ho : override? platform req (segments f.path) with
    | none => rw [merged_of_override?_none ho, hfile]
    | some o =>
      rcases text_of_override? hf ho (h o ho) with htext | ⟨-, htext⟩
      · rw [hcli] at htext
        cases htext
      · rw [henv] at htext
        cases htext
  · split_ifs at hset
    cases hset
    exact absurd rfl hlayer

/-- Where no layer sets the field, the tree has nothing for it. -/
theorem merged_of_no_layer (hf : f ∈ req.schema.fields)
    (hset : ∀ source raw, setting platform req f = some (source, raw) → source = .default)
    (hobject : ∀ ms, (layering platform req).merged.getAt (segments f.path) ≠ some (.object ms)) :
    (layering platform req).merged.getAt (segments f.path) = none := by
  unfold setting at hset
  split at hset
  · cases hset _ _ rfl
  · cases hset _ _ rfl
  · cases hset _ _ rfl
  · rename_i hcli henv hfile
    cases ho : override? platform req (segments f.path) with
    | none => rw [merged_of_override?_none ho, hfile]
    | some o =>
      refine merged_of_foreign ho (fun hplace => ?_) hobject
      rcases text_of_override? hf ho (segments_injective hplace) with htext | ⟨-, htext⟩
      · rw [hcli] at htext
        cases htext
      · rw [henv] at htext
        cases htext

/-- A disturbed field is not found. -/
theorem merged_of_disturbed (h : ¬Undisturbed platform req f.path)
    (hobject : ∀ ms, (layering platform req).merged.getAt (segments f.path) ≠ some (.object ms)) :
    (layering platform req).merged.getAt (segments f.path) = none := by
  simp only [Undisturbed, not_forall] at h
  obtain ⟨o, ho, hpath⟩ := h
  exact merged_of_foreign ho (fun hplace => hpath (segments_injective hplace)) hobject

end Highest

end FileService.Configuration
