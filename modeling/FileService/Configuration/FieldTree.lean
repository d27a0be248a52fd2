import FileService.Configuration.Conversion
import FileService.Configuration.Loaded

/-!
# The tree of a loaded configuration

At the place of a field stands what the copied trees have there, or else what
the fields have written. Values are no objects, so a field whose place is left
to objects is not read.

The loader checks a leaf of the file by the path that its names make. A leaf
whose names are plain is found under that path; so it is a declared field, or it
is in a dynamic prefix.
-/
namespace FileService.Configuration
open FileService.Common FileService.Common.Json FileService.Common.DottedPath
open FileService.Common.Json.Value (emptyObject IsLeaf Related Vacant)

section Collecting
variable {v w : Value} {ms : List (String × Value)} {name above path : String} {names : List String}

theorem mem_collectMembers (h : ms.lookup name = some v) (hpath : path ∈ collectPaths (extend above name) v) :
    path ∈ collectMembers above ms := by
  induction ms with
  | nil => cases h
  | cons m ms ih =>
    obtain ⟨first, u⟩ := m
    rw [collectMembers, List.mem_append]
    rw [List.lookup_cons] at h
    split at h
    · rename_i heq
      rw [beq_iff_eq] at heq
      subst heq
      obtain rfl := Option.some.inj h
      exact .inl hpath
    · exact .inr (ih h)

/-- The path of a leaf is collected if there is one. -/
theorem mem_collectPaths (h : IsLeaf v names w) (hpath : names.foldl extend above ≠ "") :
    names.foldl extend above ∈ collectPaths above v := by
  obtain ⟨hat, hleaf⟩ := h
  induction names generalizing v above with
  | nil =>
    rw [Value.getAt_nil] at hat
    obtain rfl := Option.some.inj hat
    change above ≠ "" at hpath
    cases v with
    | object ms =>
      obtain rfl : ms = [] := Value.object.inj (hleaf rfl)
      simp [collectPaths, hpath]
    | _ => simp [collectPaths, hpath]
  | cons name names ih =>
    rw [Value.getAt_cons] at hat
    obtain ⟨u, hu, hat⟩ := Option.bind_eq_some_iff.mp hat
    have hmem := ih hpath hat
    cases v with
    | object ms =>
      have hlookup : ms.lookup name = some u := hu
      have hsome : ms.isEmpty = false := by cases ms <;> simp_all
      rw [collectPaths, if_neg (by simp [hsome])]
      exact mem_collectMembers hlookup hmem
    | _ => cases hu

end Collecting

/-! ## Allowed paths -/

section Allowed
variable {schema : Schema} {above path : String} {names : List String}

theorem below_of_isBelow (h : Schema.isBelow above path = true) : segments above <+: segments path := by
  unfold Schema.isBelow at h
  rw [Bool.and_eq_true, List.isPrefixOf_iff_prefix] at h
  obtain ⟨⟨rest, hrest⟩, hend⟩ := h
  rw [← hrest, List.drop_left, Bool.or_eq_true, List.isEmpty_iff, beq_iff_eq] at hend
  rcases hend with rfl | hdot
  · rw [List.append_nil] at hrest
    rw [String.toList_inj.mp hrest]
  · obtain ⟨rest', rfl⟩ := List.head?_eq_some_iff.mp hdot
    have hpath : path = above ++ "." ++ String.ofList rest' := by
      apply String.toList_inj.mp
      simp [← hrest]
    rw [hpath, segments_append]
    exact List.prefix_append _ _

theorem declared_or_dynamic (h : schema.isAllowedPath path = true) :
    (∃ f, schema.find? path = some f) ∨
      ∃ above ∈ schema.dynamicPrefixes, segments above <+: segments path := by
  unfold Schema.isAllowedPath at h
  rw [Bool.or_eq_true, List.any_eq_true] at h
  rcases h with hfield | ⟨above, habove, hbelow⟩
  · exact .inl (Option.isSome_iff_exists.mp hfield)
  · exact .inr ⟨above, habove, below_of_isBelow hbelow⟩

end Allowed

/-! ## Loading without problems -/

section Ok
variable {platform : Platform} {req : LoadRequest} {l : Layering} {f : FieldSpec} {names : List String}
  {w raw : Value}

/-- The configuration after the loop over the fields. -/
def afterFields (platform : Platform) (req : LoadRequest) : Config :=
  req.schema.fields.foldl (checkField platform req (layering platform req).merged) (layering platform req).config

theorem afterFields_problems (h : (load platform req).ok = true) : (afterFields platform req).problems = [] := by
  have hall : (load platform req).problems = [] := List.isEmpty_iff.mp h
  exact (List.append_eq_nil_iff.mp hall).1

theorem envStep_problems : (envStep platform req l f).config.problems = l.config.problems := by
  unfold envStep
  split <;> rfl

theorem foldl_envStep_problems {fields : List FieldSpec} :
    (fields.foldl (envStep platform req) l).config.problems = l.config.problems := by
  induction fields generalizing l with
  | nil => rfl
  | cons f fields ih => rw [List.foldl_cons, ih, envStep_problems]

theorem foldl_cliStep_problems {schema : Schema} {given : List (String × String)} :
    l.config.problems <+: (given.foldl (cliStep schema) l).config.problems := by
  induction given generalizing l with
  | nil => exact List.prefix_refl _
  | cons g given ih =>
    refine List.IsPrefix.trans ?_ ih
    unfold cliStep
    split_ifs
    · exact List.prefix_refl _
    · exact List.prefix_append _ _

theorem unknownPaths_nil (h : (load platform req).ok = true) :
    unknownPaths req.schema (fileTree platform req) = [] := by
  have hlayers : (layering platform req).config.problems = [] :=
    problems_nil_of_foldl (afterFields_problems h)
  have hfile : (fileLayer platform req).config.problems = [] := by
    have hgrows : (envLayer platform req (fileLayer platform req)).config.problems <+:
        (layering platform req).config.problems := foldl_cliStep_problems
    rw [hlayers, List.prefix_nil] at hgrows
    unfold envLayer at hgrows
    split_ifs at hgrows
    · rwa [foldl_envStep_problems] at hgrows
    · exact hgrows
  exact (List.append_eq_nil_iff.mp hfile).2

/-- A leaf with plain names is a declared field or in a dynamic prefix. -/
theorem known_of_leaf (h : (load platform req).ok = true) (hleaf : IsLeaf (fileTree platform req) names w)
    (hplain : Plain names) (hsome : names ≠ []) :
    (∃ path f, req.schema.find? path = some f ∧ segments path = names) ∨
      ∃ above ∈ req.schema.dynamicPrefixes, segments above <+: names := by
  have hmem : joined names ∈ collectPaths "" (fileTree platform req) :=
    mem_collectPaths hleaf (joined_ne_empty hplain hsome)
  have hallowed : req.schema.isAllowedPath (joined names) = true := by
    have hnone := unknownPaths_nil h
    rw [unknownPaths, List.map_eq_nil_iff, List.filter_eq_nil_iff] at hnone
    simpa using hnone _ hmem
  rw [← segments_joined hplain hsome]
  rcases declared_or_dynamic hallowed with ⟨f, hf⟩ | hdynamic
  · exact .inl ⟨joined names, f, hf, rfl⟩
  · exact .inr hdynamic

end Ok

/-! ## The values at the places of the fields -/

/-- The fields that are added after the last one of the path. -/
def Schema.addedAfter (schema : Schema) (path : String) : List FieldSpec :=
  (schema.fields.reverse.takeWhile fun f => f.path ≠ path).reverse

/-- The layers have an object at a dynamic prefix on the way to the place. -/
def Filled (platform : Platform) (req : LoadRequest) (place : List String) : Prop :=
  ∃ above ∈ req.schema.dynamicPrefixes, segments above <+: place ∧ HoldsObject platform req (segments above)

section Loaded
variable {platform : Platform} {req : LoadRequest} {path : String} {f g : FieldSpec} {raw v w : Value}
  {source : Source} {place : List String}

theorem fields_split {schema : Schema} (h : schema.find? path = some f) :
    (∃ before, schema.fields = before ++ f :: schema.addedAfter path) ∧
      ∀ g ∈ schema.addedAfter path, g.path ≠ path := by
  obtain ⟨hpath, later, earlier, hsplit, hlater⟩ := List.find?_eq_some_iff_append.mp h
  have htake : schema.addedAfter path = later.reverse := by
    rw [Schema.addedAfter, hsplit, List.takeWhile_append_of_pos]
    · rw [List.takeWhile_cons_of_neg (by simpa using hpath), List.append_nil]
    · intro g hg
      simpa using hlater g hg
  refine ⟨⟨earlier.reverse, ?_⟩, fun g hg => ?_⟩
  · rw [← List.reverse_reverse schema.fields, hsplit, htake]
    simp
  · rw [htake, List.mem_reverse] at hg
    simpa using hlater g hg

theorem mem_of_addedAfter {schema : Schema} (h : schema.find? path = some f)
    (hg : g ∈ schema.addedAfter path) : g ∈ schema.fields := by
  obtain ⟨⟨before, hfields⟩, -⟩ := fields_split h
  rw [hfields]
  exact List.mem_append_right _ (List.mem_cons_of_mem _ hg)

theorem isObject_of_judged (h : Judged platform req f raw v) : v.isObject = false := by
  obtain ⟨text, items, -, hconv⟩ := h
  unfold converted at hconv
  split at hconv
  · cases hconv
    rfl
  · split at hconv
    · cases hconv
    · split_ifs at hconv
      cases hconv
      rfl
  · split at hconv
    · cases hconv
    · cases hconv
      rfl
  · cases hconv
    rfl

theorem not_judged_object {ms : List (String × Value)} : ¬Judged platform req f (.object ms) v := by
  rintro ⟨text, items, hraw, -⟩
  cases htype : f.type <;> rw [htype] at hraw <;> cases hraw

theorem not_object (hok : (load platform req).ok = true) (hf : f ∈ req.schema.fields)
    (ms : List (String × Value)) :
    (layering platform req).merged.getAt (segments f.path) ≠ some (.object ms) := by
  intro hraw
  obtain ⟨v, -, hjudged⟩ := judged_of_loop (afterFields_problems hok) hf (found_of_some hraw)
  exact not_judged_object hjudged

theorem layering_effective : (layering platform req).config.effective = emptyObject := by
  have henv : ∀ (fields : List FieldSpec) (l : Layering),
      (fields.foldl (envStep platform req) l).config.effective = l.config.effective := by
    intro fields
    induction fields with
    | nil => exact fun l => rfl
    | cons f fields ih =>
      intro l
      rw [List.foldl_cons, ih, envStep]
      split <;> rfl
  have hcli : ∀ (given : List (String × String)) (l : Layering),
      (given.foldl (cliStep req.schema) l).config.effective = l.config.effective := by
    intro given
    induction given with
    | nil => exact fun l => rfl
    | cons g given ih =>
      intro l
      rw [List.foldl_cons, ih, cliStep]
      split_ifs <;> rfl
  rw [layering, hcli, envLayer]
  split_ifs
  · rw [henv]
    rfl
  · rfl

/-- The tree that the fields make. -/
def fieldTree (platform : Platform) (req : LoadRequest) : Value :=
  emptyObject.setAll (fieldWrites platform req (layering platform req).merged req.schema.fields)

theorem load_effective : (load platform req).effective =
    req.schema.dynamicPrefixes.foldl (copyDynamic (layering platform req).merged) (fieldTree platform req) := by
  rw [load, fieldTree]
  dsimp only
  rw [foldl_effective, layering_effective]

/-- A field has the value of a copied tree, or what the fields make. -/
theorem effective_at (hok : (load platform req).ok = true) (hf : f ∈ req.schema.fields) :
    ¬Filled platform req (segments f.path) ∧
        (load platform req).effective.getAt (segments f.path) = (fieldTree platform req).getAt (segments f.path) ∨
      Filled platform req (segments f.path) ∧ (load platform req).effective.getAt (segments f.path) =
        (layering platform req).merged.getAt (segments f.path) := by
  have hplace : ∀ above ∈ req.schema.dynamicPrefixes, Copied (layering platform req).merged above →
      segments f.path <+: segments above → segments f.path = segments above := by
    rintro above - ⟨ms, hms⟩ hbelow
    obtain ⟨ms', hobject⟩ := Value.object_on_the_way hms hbelow fun _ => rfl
    exact absurd hobject (not_object hok hf ms')
  rw [load_effective]
  rcases getAt_copyDynamic hplace with ⟨hsame, hnone⟩ | ⟨hcopy, above, habove, hcopied, hbelow⟩
  · refine .inl ⟨?_, hsame⟩
    rintro ⟨above, habove, hbelow, hholds⟩
    exact hnone above habove (holdsObject_iff.mp hholds) hbelow
  · exact .inr ⟨⟨above, habove, hbelow, holdsObject_iff.mpr hcopied⟩, hcopy⟩

/-! ### What the fields write -/

theorem mem_fieldWrites {fields : List FieldSpec} {u : List String × Value}
    (h : u ∈ fieldWrites platform req (layering platform req).merged fields) :
    ∃ g ∈ fields, segments g.path = u.1 ∧ fieldValue platform req (layering platform req).merged g = some u.2 := by
  obtain ⟨g, hg, hu⟩ := List.mem_filterMap.mp h
  obtain ⟨v, hv, rfl⟩ := Option.map_eq_some_iff.mp hu
  exact ⟨g, hg, rfl, hv⟩

/-- In a loading without problems, a written value is one that the field was judged by. -/
theorem judged_of_fieldValue (hok : (load platform req).ok = true) (hf : f ∈ req.schema.fields)
    (h : fieldValue platform req (layering platform req).merged f = some v) :
    ∃ raw, found (layering platform req).merged f = some raw ∧ Judged platform req f raw v := by
  obtain ⟨raw, hraw, -⟩ := Option.bind_eq_some_iff.mp h
  obtain ⟨v', hv', hjudged⟩ := judged_of_loop (afterFields_problems hok) hf hraw
  rw [h] at hv'
  obtain rfl := Option.some.inj hv'
  exact ⟨raw, hraw, hjudged⟩

/-- The writings of fields with other paths leave a vacant place vacant. -/
theorem vacant_fieldWrites (hok : (load platform req).ok = true) {fields : List FieldSpec}
    (hfields : ∀ g ∈ fields, g ∈ req.schema.fields ∧ (g.path = path → fieldValue platform req
      (layering platform req).merged g = none)) (h : Vacant v (segments path)) :
    Vacant (v.setAll (fieldWrites platform req (layering platform req).merged fields)) (segments path) := by
  refine h.setAll fun u hu => ?_
  obtain ⟨g, hg, hplace, hvalue⟩ := mem_fieldWrites hu
  obtain ⟨hmem, hnone⟩ := hfields g hg
  constructor
  · intro hsame
    rw [hnone (segments_injective (hplace.trans hsame))] at hvalue
    cases hvalue
  · obtain ⟨raw, -, hjudged⟩ := judged_of_fieldValue hok hmem hvalue
    exact isObject_of_judged hjudged

/-- A value at a vacant place is not read. -/
theorem not_read_of_vacant {t : Typed} (h : Vacant v (segments f.path))
    (heffective : (load platform req).effective.getAt (segments f.path) = v.getAt (segments f.path)) :
    (load platform req).read platform f ≠ .ok t := by
  intro hread
  rw [read_ok_iff, heffective] at hread
  obtain ⟨w, hw, hshown⟩ := Option.bind_eq_some_iff.mp hread
  rw [shown_of_isObject (h w hw)] at hshown
  cases hshown


end Loaded

end FileService.Configuration
