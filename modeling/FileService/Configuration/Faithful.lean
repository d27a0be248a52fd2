import FileService.Configuration.FieldTree

/-!
# Faithful configurations

A configuration is faithful if every declared field has the value of its
highest layer, and no leaf of the file is lost. The loader promises that for
requests in which no path is written across another one, all values come
through their texts, and the leaves have names that paths can tell apart.
-/
namespace FileService.Configuration
open FileService.Common FileService.Common.Json FileService.Common.DottedPath
open FileService.Common.Json.Value (Related IsLeaf Vacant)

def Schema.Declares (schema : Schema) (place : List String) : Prop :=
  ∃ path f, schema.find? path = some f ∧ segments path = place

/-- The place is in a tree under a dynamic prefix. -/
def Schema.Contains (schema : Schema) (place : List String) (w : Value) : Prop :=
  ∃ above ∈ schema.dynamicPrefixes, segments above <+: place ∧ (segments above = place → w.isObject = true)

section Properties
variable {platform : Platform} (numbers : Numbers platform) (req : LoadRequest)

/-- A higher layer than the file writes at the place, above it or below it. -/
def Overridden (platform : Platform) (req : LoadRequest) (place : List String) : Prop :=
  ∃ o ∈ overrides platform req, Related (segments o.1) place

/-- Every declared field is read as what its highest layer has, and every leaf of the file is a
declared field, is kept under a dynamic prefix, or is overridden. -/
structure Faithful : Prop where
  field : ∀ path f, req.schema.find? path = some f → ∀ source raw,
    setting platform req f = some (source, raw) →
      (∃ t, (load platform req).read platform f = .ok t ∧ Stands numbers req raw t ∧ InRange f t) ∧
        (load platform req).sources path = some source
  leaf : ∀ place w, place ≠ [] → IsLeaf (fileTree platform req) place w →
    req.schema.Declares place ∨ Overridden platform req place ∨
      req.schema.Contains place w ∧ (load platform req).effective.getAt place = some w

/-- No writing across a field: in the layers, in a copied tree, or by a field that is added later.
What the field has comes through its text, or is read as it stands in a copied tree. Leaves that the
check of paths cannot tell apart, or that stand at a dynamic prefix themselves, are accounted for. -/
structure Orderly : Prop where
  undisturbed : ∀ path f, req.schema.find? path = some f → ∀ source raw,
    setting platform req f = some (source, raw) → source ≠ .default → Undisturbed platform req path
  copied : ∀ path f, req.schema.find? path = some f → ∀ source raw,
    setting platform req f = some (source, raw) → Filled platform req (segments path) →
      source ≠ .default ∧ Direct numbers req f.type raw
  converted : ∀ path f, req.schema.find? path = some f → ∀ source raw,
    setting platform req f = some (source, raw) → ¬Filled platform req (segments path) →
      Exact numbers f.type raw ∧ ∀ g ∈ req.schema.addedAfter path, (setting platform req g).isSome = true →
        ¬Related (segments g.path) (segments path)
  leaf : ∀ place w, place ≠ [] → IsLeaf (fileTree platform req) place w →
    ¬Plain place ∨ (∃ above ∈ req.schema.dynamicPrefixes, segments above = place) ∧ w.isObject = false →
      req.schema.Declares place ∨ Overridden platform req place ∨ req.schema.Contains place w

end Properties

/-! ## What a field is read from -/

section Fields
variable {platform : Platform} {numbers : Numbers platform} {req : LoadRequest} {path : String}
  {f g : FieldSpec} {raw : Value} {source : Source}

/-- Layers set paths, not fields. -/
theorem setting_congr (hpath : g.path = f.path) (hlayer : source ≠ .default)
    (hset : setting platform req f = some (source, raw)) : setting platform req g = some (source, raw) := by
  unfold setting at hset ⊢
  rw [hpath]
  split at hset
  · exact hset
  · exact hset
  · exact hset
  · split_ifs at hset
    cases hset
    exact absurd rfl hlayer

theorem default_of_setting (hset : setting platform req f = some (.default, raw)) :
    f.hasDefault = true ∧ raw = .string f.defaultValue := by
  unfold setting at hset
  split at hset
  · cases hset
  · cases hset
  · cases hset
  · split_ifs at hset with hdefault
    cases hset
    exact ⟨hdefault, rfl⟩

/-- A field that has its default is not in the tree. -/
theorem merged_of_default (hok : (load platform req).ok = true) (hf : f ∈ req.schema.fields)
    (hset : setting platform req f = some (.default, raw)) :
    (layering platform req).merged.getAt (segments f.path) = none := by
  refine merged_of_no_layer hf (fun source' raw' hset' => ?_) (not_object hok hf)
  rw [hset] at hset'
  cases hset'
  rfl

/-- The loader reads a field from its highest layer if that is not disturbed. -/
theorem found_of_setting (hok : (load platform req).ok = true) (hf : f ∈ req.schema.fields)
    (hset : setting platform req f = some (source, raw))
    (h : source ≠ .default → Undisturbed platform req f.path) :
    found (layering platform req).merged f = some raw := by
  by_cases hlayer : source = .default
  · subst hlayer
    obtain ⟨hdefault, rfl⟩ := default_of_setting hset
    have hnone := merged_of_default hok hf hset
    rw [found_of_none hnone, if_pos hdefault]
  · exact found_of_some (merged_of_setting hf hset hlayer (h hlayer))

theorem setting_of_found (hok : (load platform req).ok = true) (hf : f ∈ req.schema.fields)
    (hfound : found (layering platform req).merged f = some raw) : (setting platform req f).isSome = true := by
  by_contra hunset
  rw [Bool.not_eq_true, Option.isSome_eq_false_iff, Option.isNone_iff_eq_none] at hunset
  have hnone := merged_of_no_layer hf (fun source' raw' hset' => by
    rw [hunset] at hset'
    cases hset') (not_object hok hf)
  rw [found_of_none hnone] at hfound
  split_ifs at hfound with hdefault
  unfold setting at hunset
  split at hunset
  · cases hunset
  · cases hunset
  · cases hunset
  · rw [if_pos hdefault] at hunset
    cases hunset

/-- A declared field stands in the tree of the fields if none that is added later writes near it. -/
theorem fieldTree_at {v : Value} (hdecl : req.schema.find? path = some f)
    (hvalue : fieldValue platform req (layering platform req).merged f = some v)
    (hlater : ∀ u ∈ fieldWrites platform req (layering platform req).merged (req.schema.addedAfter path),
      ¬Related u.1 (segments f.path)) :
    (fieldTree platform req).getAt (segments f.path) = some v := by
  obtain ⟨⟨before, hfields⟩, -⟩ := fields_split hdecl
  have hwrite : fieldWrite platform req (layering platform req).merged f = some (segments f.path, v) := by
    rw [fieldWrite, hvalue]
    rfl
  rw [fieldTree, hfields, fieldWrites_append, fieldWrites_cons, hwrite]
  simp only [Option.toList_some, List.singleton_append]
  rw [Value.getAt_setAll_last hlater, Value.getAt_setAt]

/-- The source of a declared field. -/
theorem source_of_setting (hok : (load platform req).ok = true) (hf : f ∈ req.schema.fields)
    (hset : setting platform req f = some (source, raw))
    (h : source ≠ .default → Undisturbed platform req f.path) :
    (load platform req).sources f.path = some source := by
  change (afterFields platform req).sources f.path = some source
  by_cases hlayer : source = .default
  · subst hlayer
    have hnone := merged_of_default hok hf hset
    rw [afterFields, foldl_sources_none hnone, if_pos ⟨f, hf, rfl, (default_of_setting hset).1⟩]
  · have hraw := merged_of_setting hf hset hlayer (h hlayer)
    rw [afterFields, foldl_sources hraw (afterFields_problems hok) ⟨f, hf, rfl⟩,
      layering_sources_of_setting hf hset hlayer]

end Fields

/-! ## Orderly requests -/

section Orderly
variable {platform : Platform} {numbers : Numbers platform} {req : LoadRequest} {path : String}
  {f g : FieldSpec} {raw w : Value} {source : Source} {place : List String}

/-- In an orderly request a declared field is read as what its highest layer has. -/
theorem Orderly.field (h : Orderly numbers req) (hok : (load platform req).ok = true)
    (hdecl : req.schema.find? path = some f) (hset : setting platform req f = some (source, raw)) :
    ∃ t, (load platform req).read platform f = .ok t ∧ Stands numbers req raw t ∧ InRange f t := by
  obtain ⟨hf, rfl⟩ := mem_find? hdecl
  have hundisturbed := h.undisturbed f.path f hdecl source raw hset
  have hfound := found_of_setting hok hf hset hundisturbed
  obtain ⟨v, hvalue, hjudged⟩ := judged_of_loop (afterFields_problems hok) hf hfound
  rcases effective_at hok hf with ⟨hfilled, heffective⟩ | ⟨hfilled, heffective⟩
  · obtain ⟨hexact, hlater⟩ := h.converted f.path f hdecl source raw hset hfilled
    have htree : (fieldTree platform req).getAt (segments f.path) = some v := by
      refine fieldTree_at hdecl hvalue fun u hu => ?_
      obtain ⟨g, hg, hplace, hwritten⟩ := mem_fieldWrites hu
      have hmem := mem_of_addedAfter hdecl hg
      obtain ⟨raw', hraw', -⟩ := judged_of_fieldValue hok hmem hwritten
      rw [← hplace]
      exact hlater g hg (setting_of_found hok hmem hraw')
    obtain ⟨t, hshown, hstands, hrange⟩ := (exact_iff hjudged).mpr hexact
    refine ⟨t, ?_, hstands, hrange⟩
    rw [read_ok_iff, heffective, htree, Option.bind_some, hshown]
  · obtain ⟨hlayer, hdirect⟩ := h.copied f.path f hdecl source raw hset hfilled
    obtain ⟨t, hshown, hstands, hrange⟩ := (direct_iff hjudged).mpr hdirect
    refine ⟨t, ?_, hstands, hrange⟩
    rw [read_ok_iff, heffective, merged_of_setting hf hset hlayer (hundisturbed hlayer), Option.bind_some, hshown]

/-- What stands under a dynamic prefix in the file, and is not overridden, is kept. -/
theorem kept_of_contains (hleaf : IsLeaf (fileTree platform req) place w)
    (hcontains : req.schema.Contains place w) (hkept : ¬Overridden platform req place) :
    (load platform req).effective.getAt place = some w := by
  have hmerged : (layering platform req).merged.getAt place = some w := by
    have hnone : override? platform req place = none := by
      rw [override?, List.find?_eq_none]
      intro o ho hrel
      exact hkept ⟨o, List.mem_reverse.mp ho, by simpa using hrel⟩
    rw [merged_of_override?_none hnone]
    exact hleaf.1
  obtain ⟨above, habove, hbelow, hobject⟩ := hcontains
  have hcopied : Copied (layering platform req).merged above :=
    Value.object_on_the_way hmerged hbelow hobject
  have hplace : ∀ above ∈ req.schema.dynamicPrefixes, Copied (layering platform req).merged above →
      place <+: segments above → place = segments above := by
    rintro above' - ⟨ms, hms⟩ ⟨rest, hrest⟩
    by_contra hne
    have hsome : rest ≠ [] := fun hnil => hne (by rw [← hrest, hnil, List.append_nil])
    rw [← hrest, Value.getAt_append, hmerged, Option.bind_some] at hms
    rw [hleaf.2 (Value.isObject_of_getAt hsome hms), Value.getAt_emptyObject hsome] at hms
    cases hms
  rw [load_effective]
  rcases getAt_copyDynamic hplace with ⟨-, hnone⟩ | ⟨hcopy, -⟩
  · exact absurd hbelow (hnone above habove hcopied)
  · rw [hcopy, hmerged]

end Orderly

/-! ## Faithful configurations -/

section Faithful
variable {platform : Platform} {numbers : Numbers platform} {req : LoadRequest} {path : String}
  {f g : FieldSpec} {raw w : Value} {source : Source} {place : List String}

/-- Where the layers have nothing for a field, its own layer is the default. -/
theorem default_of_read {t : Typed} (hok : (load platform req).ok = true) (hf : f ∈ req.schema.fields)
    (hnone : (layering platform req).merged.getAt (segments f.path) = none)
    (hread : (load platform req).read platform f = .ok t) :
    (load platform req).sources f.path = some .default := by
  change (afterFields platform req).sources f.path = some .default
  rw [afterFields, foldl_sources_none hnone]
  by_cases hdefault : ∃ g ∈ req.schema.fields, g.path = f.path ∧ g.hasDefault = true
  · rw [if_pos hdefault]
  · exfalso
    have hvacant : Vacant (fieldTree platform req) (segments f.path) := by
      refine vacant_fieldWrites hok (fun g hg => ⟨hg, fun hpath => ?_⟩) (Value.vacant_emptyObject segments_ne_nil)
      have hfound : found (layering platform req).merged g = none := by
        rw [found_of_none (hpath ▸ hnone), if_neg fun h => hdefault ⟨g, hg, hpath, h⟩]
      rw [fieldValue, hfound]
      rfl
    rcases effective_at hok hf with ⟨-, heffective⟩ | ⟨-, heffective⟩
    · exact not_read_of_vacant hvacant heffective hread
    · rw [read_ok_iff, heffective, hnone] at hread
      cases hread

theorem Faithful.undisturbed (h : Faithful numbers req) (hok : (load platform req).ok = true)
    (hdecl : req.schema.find? path = some f) (hset : setting platform req f = some (source, raw))
    (hlayer : source ≠ .default) : Undisturbed platform req path := by
  obtain ⟨hf, rfl⟩ := mem_find? hdecl
  by_contra hdisturbed
  obtain ⟨⟨t, hread, -⟩, hsource⟩ := h.field f.path f hdecl source raw hset
  have hnone := merged_of_disturbed hdisturbed (not_object hok hf)
  rw [default_of_read hok hf hnone hread] at hsource
  exact hlayer (Option.some.inj hsource).symm

/-- A field that is set is written, also if it is declared again. -/
theorem Faithful.written (h : Faithful numbers req) (hok : (load platform req).ok = true)
    (hg : g ∈ req.schema.fields) (hset : (setting platform req g).isSome = true) :
    ∃ v, fieldValue platform req (layering platform req).merged g = some v := by
  obtain ⟨⟨source, raw⟩, hset⟩ := Option.isSome_iff_exists.mp hset
  have hundisturbed : source ≠ .default → Undisturbed platform req g.path := by
    intro hlayer
    obtain ⟨f, hdecl⟩ := exists_find? hg
    exact h.undisturbed hok hdecl (setting_congr (mem_find? hdecl).2 hlayer hset) hlayer
  obtain ⟨v, hv, -⟩ := judged_of_loop (afterFields_problems hok) hg (found_of_setting hok hg hset hundisturbed)
  exact ⟨v, hv⟩

/-- A later writing near a field would hide it. -/
theorem Faithful.apart (h : Faithful numbers req) (hok : (load platform req).ok = true)
    (hdecl : req.schema.find? path = some f) (hset : setting platform req f = some (source, raw))
    (hfilled : ¬Filled platform req (segments path)) (hg : g ∈ req.schema.addedAfter path)
    (hgset : (setting platform req g).isSome = true) : ¬Related (segments g.path) (segments path) := by
  obtain ⟨hf, rfl⟩ := mem_find? hdecl
  obtain ⟨⟨t, hread, -⟩, -⟩ := h.field f.path f hdecl source raw hset
  intro hrel
  obtain ⟨⟨before, hfields⟩, hother⟩ := fields_split hdecl
  obtain ⟨middle, after, hafter⟩ := List.append_of_mem hg
  have hmem : ∀ u ∈ g :: after, u ∈ req.schema.fields ∧ u.path ≠ f.path := by
    intro u hu
    have hlater : u ∈ req.schema.addedAfter f.path := by
      rw [hafter]
      exact List.mem_append_right _ hu
    exact ⟨mem_of_addedAfter hdecl hlater, hother u hlater⟩
  obtain ⟨hgmem, hgpath⟩ := hmem g List.mem_cons_self
  obtain ⟨v, hv⟩ := h.written hok hgmem hgset
  obtain ⟨raw', -, hjudged⟩ := judged_of_fieldValue hok hgmem hv
  have hwrite : fieldWrite platform req (layering platform req).merged g = some (segments g.path, v) := by
    rw [fieldWrite, hv]
    rfl
  have hvacant : Vacant (fieldTree platform req) (segments f.path) := by
    have hsplit : req.schema.fields = (before ++ f :: middle) ++ g :: after := by
      rw [hfields, hafter, List.append_assoc, List.cons_append]
    rw [fieldTree, hsplit, fieldWrites_append, fieldWrites_cons, hwrite, Value.setAll_append,
      Value.setAll_append]
    refine vacant_fieldWrites hok (fun u hu => ?_) (Value.vacant_setAt hrel
      (fun hsame => hgpath (segments_injective hsame)) (isObject_of_judged hjudged))
    obtain ⟨humem, hupath⟩ := hmem u (List.mem_cons_of_mem _ hu)
    exact ⟨humem, fun hpath => absurd hpath hupath⟩
  rcases effective_at hok hf with ⟨-, heffective⟩ | ⟨hfilled', -⟩
  · exact not_read_of_vacant hvacant heffective hread
  · exact hfilled hfilled'

/-- What is read from a copied tree is read as it stands in the layers. -/
theorem Faithful.direct (h : Faithful numbers req) (hok : (load platform req).ok = true)
    (hdecl : req.schema.find? path = some f) (hset : setting platform req f = some (source, raw))
    (hfilled : Filled platform req (segments path)) : source ≠ .default ∧ Direct numbers req f.type raw := by
  obtain ⟨hf, rfl⟩ := mem_find? hdecl
  obtain ⟨⟨t, hread, hstands, hrange⟩, -⟩ := h.field f.path f hdecl source raw hset
  have hundisturbed := h.undisturbed hok hdecl hset
  have heffective : (load platform req).effective.getAt (segments f.path) =
      (layering platform req).merged.getAt (segments f.path) := by
    rcases effective_at hok hf with ⟨hfree, -⟩ | ⟨-, heffective⟩
    · exact absurd hfilled hfree
    · exact heffective
  rw [read_ok_iff, heffective] at hread
  have hlayer : source ≠ .default := by
    rintro rfl
    have hnone := merged_of_default hok hf hset
    rw [hnone] at hread
    cases hread
  rw [merged_of_setting hf hset hlayer (hundisturbed hlayer), Option.bind_some] at hread
  obtain ⟨v, -, hjudged⟩ :=
    judged_of_loop (afterFields_problems hok) hf (found_of_setting hok hf hset hundisturbed)
  exact ⟨hlayer, (direct_iff hjudged).mp ⟨t, hread, hstands, hrange⟩⟩

/-- What the loader converts has come through its text. -/
theorem Faithful.exact (h : Faithful numbers req) (hok : (load platform req).ok = true)
    (hdecl : req.schema.find? path = some f) (hset : setting platform req f = some (source, raw))
    (hfilled : ¬Filled platform req (segments path)) : Exact numbers f.type raw := by
  obtain ⟨hf, hpath⟩ := mem_find? hdecl
  subst hpath
  obtain ⟨⟨t, hread, hstands, hrange⟩, -⟩ := h.field f.path f hdecl source raw hset
  obtain ⟨v, hvalue, hjudged⟩ := judged_of_loop (afterFields_problems hok) hf
    (found_of_setting hok hf hset (h.undisturbed hok hdecl hset))
  have htree : (fieldTree platform req).getAt (segments f.path) = some v := by
    refine fieldTree_at hdecl hvalue fun u hu => ?_
    obtain ⟨g, hg, hplace, hwritten⟩ := mem_fieldWrites hu
    have hmem := mem_of_addedAfter hdecl hg
    obtain ⟨raw', hraw', -⟩ := judged_of_fieldValue hok hmem hwritten
    exact hplace ▸ h.apart hok hdecl hset hfilled hg (setting_of_found hok hmem hraw')
  rcases effective_at hok hf with ⟨-, heffective⟩ | ⟨hcopied, -⟩
  · rw [read_ok_iff, heffective, htree, Option.bind_some] at hread
    exact (exact_iff hjudged).mp ⟨t, hread, hstands, hrange⟩
  · exact absurd hcopied hfilled

end Faithful

/-- A configuration that is loaded without a problem is faithful just when its request is orderly. -/
theorem load_faithful_iff {platform : Platform} (numbers : Numbers platform) (req : LoadRequest)
    (hok : (load platform req).ok = true) : Faithful numbers req ↔ Orderly numbers req := by
  constructor
  · intro h
    constructor
    · intro path f hdecl source raw hset hlayer
      exact h.undisturbed hok hdecl hset hlayer
    · intro path f hdecl source raw hset hfilled
      exact h.direct hok hdecl hset hfilled
    · intro path f hdecl source raw hset hfilled
      exact ⟨h.exact hok hdecl hset hfilled, fun g hg hgset => h.apart hok hdecl hset hfilled hg hgset⟩
    · intro place w hsome hleaf _
      rcases h.leaf place w hsome hleaf with hdeclared | hoverridden | hkept
      · exact .inl hdeclared
      · exact .inr (.inl hoverridden)
      · exact .inr (.inr hkept.1)
  · intro h
    constructor
    · intro path f hdecl source raw hset
      refine ⟨h.field hok hdecl hset, ?_⟩
      obtain ⟨hf, rfl⟩ := mem_find? hdecl
      exact source_of_setting hok hf hset (h.undisturbed f.path f hdecl source raw hset)
    · intro place w hsome hleaf
      have haccounted : req.schema.Declares place ∨ Overridden platform req place ∨
          req.schema.Contains place w := by
        by_cases hodd : ¬Plain place ∨
            (∃ above ∈ req.schema.dynamicPrefixes, segments above = place) ∧ w.isObject = false
        · exact h.leaf place w hsome hleaf hodd
        · rw [not_or, not_not] at hodd
          rcases known_of_leaf hok hleaf hodd.1 hsome with hdeclared | ⟨above, habove, hbelow⟩
          · exact .inl hdeclared
          · refine .inr (.inr ⟨above, habove, hbelow, fun hplace => ?_⟩)
            by_contra hobject
            exact hodd.2 ⟨⟨above, habove, hplace⟩, Bool.of_not_eq_true hobject⟩
      by_cases hoverridden : Overridden platform req place
      · exact .inr (.inl hoverridden)
      · rcases haccounted with hdeclared | hover | hcontains
        · exact .inl hdeclared
        · exact absurd hover hoverridden
        · exact .inr (.inr ⟨hcontains, kept_of_contains hleaf hcontains hoverridden⟩)

/-! ## A name with dots in it -/

section Bind

/-- One file, without numbers in it. -/
def filePlatform (text : String) (content : Value) : Platform where
  parseWithComments _ := .ok content
  floatText _ := "0"
  readFile _ := some text
  getenv _ := none

def noNumbers (text : String) (content : Value) : Numbers (filePlatform text content) where
  spells _ _ := False
  spells_of_denoted _ := Iff.rfl
  floatText_plain _ := by
    intro c hc
    obtain rfl : c = '0' := by simpa [filePlatform] using hc
    simp
  floatText_fits := by
    intro bits n hn
    have hzero : denoted "0" = some 0 := by decide
    obtain rfl := Option.some.inj (hn.symm.trans hzero)
    decide

/-- The address that the server listens on. -/
def bindRequest : LoadRequest where
  schema := { fields := [{ path := "server.http.bind", hasDefault := true, defaultValue := "0.0.0.0" }] }
  filePath := "fss.json"

def nested : Value := .object [("server", .object [("http", .object [("bind", .string "127.0.0.1")])])]

def dotted : Value := .object [("server.http.bind", .string "127.0.0.1")]

def nestedText : String := "\x7b\"server\": \x7b\"http\": \x7b\"bind\": \"127.0.0.1\"\x7d\x7d\x7d"

def dottedText : String := "\x7b\"server.http.bind\": \"127.0.0.1\"\x7d"

theorem load_faithful_nested : (load (filePlatform nestedText nested) bindRequest).ok = true ∧
    (Faithful (noNumbers nestedText nested) bindRequest ↔ Orderly (noNumbers nestedText nested) bindRequest) :=
  ⟨by decide, load_faithful_iff _ _ (by decide)⟩

/-- The loader finds the name among the declared paths, and reads the default. -/
theorem not_faithful_dotted : ¬∀ (platform : Platform) (numbers : Numbers platform) (req : LoadRequest),
    (load platform req).ok = true → Faithful numbers req := by
  intro h
  have hleaf := (h _ (noNumbers dottedText dotted) bindRequest (by decide)).leaf ["server.http.bind"]
    (.string "127.0.0.1") (by simp) ⟨rfl, by simp [Value.isObject]⟩
  rcases hleaf with ⟨path, f, hdecl, hplace⟩ | ⟨o, ho, -⟩ | ⟨⟨above, habove, -⟩, -⟩
  · have hpath : path = "server.http.bind" := by
      obtain ⟨hf, rfl⟩ := mem_find? hdecl
      rw [List.mem_singleton.mp hf]
    rw [hpath] at hplace
    exact absurd hplace (by decide)
  · exact absurd ho (by simp [overrides, bindRequest, LoadRequest.lookup, filePlatform])
  · simp [bindRequest] at habove

end Bind

end FileService.Configuration
