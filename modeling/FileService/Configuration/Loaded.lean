import FileService.Configuration.Rounds

/-!
# What is loaded without a problem

Each field has the source of its highest layer, a value that its text was
converted to, and stands in the tree unless a later writing replaced it. The
places below a copied prefix have what the layers have there.
-/
namespace FileService.Configuration
open FileService.Common FileService.Common.Json FileService.Common.DottedPath
open FileService.Common.Json.Value (emptyObject Related)

/-! ## Sources -/

section Sources
variable {platform : Platform} {req : LoadRequest} {merged : Value} {config : Config} {l : Layering}
  {f : FieldSpec} {fields : List FieldSpec} {path : String} {raw : Value}

theorem settle_sources {source : Source} {judged : List Problem × Option Value} {q : String} :
    (settle config path source judged).sources q =
      if q = path ∧ judged.2.isSome then some source else config.sources q := by
  rcases judged with ⟨problems, _ | v⟩
  · simp [settle]
  · by_cases hq : q = path <;> simp [settle, Config.setSource, hq]

theorem checkField_sources_other (h : path ≠ f.path) :
    (checkField platform req merged config f).sources path = config.sources path := by
  unfold checkField
  cases merged.getAt (segments f.path) with
  | some raw => simp [settle_sources, h]
  | none =>
    dsimp only
    split_ifs
    · simp [settle_sources, Config.setSource, h]
    · rfl
    · rfl

theorem foldl_sources_other (h : ∀ g ∈ fields, g.path ≠ path) :
    (fields.foldl (checkField platform req merged) config).sources path = config.sources path := by
  induction fields generalizing config with
  | nil => rfl
  | cons f fields ih =>
    rw [List.foldl_cons, ih fun g hg => h g (List.mem_cons_of_mem _ hg),
      checkField_sources_other (h f List.mem_cons_self).symm]

/-- A field that the layers set has the source it has from them. -/
theorem checkField_sources (hraw : merged.getAt (segments f.path) = some raw)
    (hok : (checkField platform req merged config f).problems = []) :
    (checkField platform req merged config f).sources f.path =
      some ((config.sources f.path).getD .file) := by
  obtain ⟨v, hv, -⟩ := judged_of_round hok (found_of_some hraw)
  have hjudge : (judge platform req f raw ((config.sources f.path).getD .file)).2 = some v :=
    (fieldValue_of_found (found_of_some hraw)).symm.trans hv
  unfold checkField
  rw [hraw]
  simp [settle_sources, hjudge]

theorem foldl_sources (hraw : merged.getAt (segments path) = some raw)
    (hok : (fields.foldl (checkField platform req merged) config).problems = [])
    (hf : ∃ f ∈ fields, f.path = path) :
    (fields.foldl (checkField platform req merged) config).sources path =
      some ((config.sources path).getD .file) := by
  induction fields generalizing config with
  | nil => simp at hf
  | cons f fields ih =>
    rw [List.foldl_cons] at hok ⊢
    by_cases hpath : f.path = path
    · subst hpath
      have hfirst := checkField_sources hraw (problems_nil_of_foldl hok)
      by_cases hlater : ∃ g ∈ fields, g.path = f.path
      · rw [ih hok hlater, hfirst, Option.getD_some]
      · rw [foldl_sources_other fun g hg hpath => hlater ⟨g, hg, hpath⟩, hfirst]
    · rw [ih hok (by simpa [hpath] using hf), checkField_sources_other (Ne.symm hpath)]

/-- A field that the layers do not set has the default as its source, or the one it had. -/
theorem checkField_sources_none (hraw : merged.getAt (segments f.path) = none) :
    (checkField platform req merged config f).sources f.path =
      if f.hasDefault then some .default else config.sources f.path := by
  unfold checkField
  rw [hraw]
  dsimp only
  split_ifs
  · simp [settle_sources, Config.setSource]
  · rfl
  · rfl

theorem foldl_sources_none (hraw : merged.getAt (segments path) = none) :
    (fields.foldl (checkField platform req merged) config).sources path =
      if ∃ f ∈ fields, f.path = path ∧ f.hasDefault = true then some .default else config.sources path := by
  induction fields generalizing config with
  | nil => simp
  | cons f fields ih =>
    rw [List.foldl_cons, ih]
    by_cases hpath : f.path = path
    · subst hpath
      rw [checkField_sources_none hraw]
      by_cases hdefault : f.hasDefault <;> simp [hdefault]
    · rw [checkField_sources_other (Ne.symm hpath)]
      simp [hpath]

/-! The environment and the command line leave their names. -/

theorem envStep_sources_other (h : path ≠ f.path) :
    (envStep platform req l f).config.sources path = l.config.sources path := by
  unfold envStep
  cases req.lookup platform (envNameFor f.path req.envPrefix) with
  | none => rfl
  | some text => simp [Layering.write, Config.setSource, h]

theorem envStep_sources : (envStep platform req l f).config.sources f.path =
    if (req.lookup platform (envNameFor f.path req.envPrefix)).isSome then some .env
    else l.config.sources f.path := by
  unfold envStep
  cases req.lookup platform (envNameFor f.path req.envPrefix) with
  | none => rfl
  | some text => simp [Layering.write, Config.setSource]

theorem foldl_envStep_sources : (fields.foldl (envStep platform req) l).config.sources path =
    if (∃ f ∈ fields, f.path = path) ∧
        (req.lookup platform (envNameFor path req.envPrefix)).isSome then some .env
    else l.config.sources path := by
  induction fields generalizing l with
  | nil => simp
  | cons f fields ih =>
    rw [List.foldl_cons, ih]
    by_cases hpath : f.path = path
    · subst hpath
      rw [envStep_sources]
      by_cases hsome : (req.lookup platform (envNameFor f.path req.envPrefix)).isSome <;> simp [hsome]
    · rw [envStep_sources_other (Ne.symm hpath)]
      simp [hpath]

theorem foldl_cliStep_sources {schema : Schema} {given : List (String × String)}
    (hallowed : schema.isAllowedPath path = true) :
    (given.foldl (cliStep schema) l).config.sources path =
      if ∃ g ∈ given, g.1 = path then some .cli else l.config.sources path := by
  induction given generalizing l with
  | nil => simp
  | cons g given ih =>
    rw [List.foldl_cons, ih, cliStep]
    by_cases hpath : g.1 = path
    · subst hpath
      simp [hallowed, Layering.write, Config.setSource]
    · split_ifs <;> simp_all [Layering.write, Config.setSource, Config.report, Ne.symm hpath]

theorem envLayer_sources (hf : f ∈ req.schema.fields) :
    (envLayer platform req (fileLayer platform req)).config.sources f.path =
      if (envText platform req f.path).isSome then some .env else none := by
  unfold envLayer envText
  by_cases henabled : req.envEnabled
  · rw [if_pos henabled, if_pos henabled, foldl_envStep_sources]
    by_cases hsome : (req.lookup platform (envNameFor f.path req.envPrefix)).isSome
    · rw [if_pos ⟨⟨f, hf, rfl⟩, hsome⟩, if_pos hsome]
    · rw [if_neg fun h => hsome h.2, if_neg hsome]
      rfl
  · rw [if_neg henabled, if_neg henabled]
    rfl

theorem layering_sources (hf : f ∈ req.schema.fields) : (layering platform req).config.sources f.path =
    if (cliText req f.path).isSome then some .cli
    else if (envText platform req f.path).isSome then some .env else none := by
  have hcli : (cliText req f.path).isSome = true ↔ ∃ g ∈ req.cliOverrides, g.1 = f.path := by
    simp [cliText, List.find?_isSome]
  rw [layering, foldl_cliStep_sources (isAllowedPath_of_mem hf), envLayer_sources hf]
  simp only [hcli]

/-- The source that the layers leave is the highest one that sets the field. -/
theorem layering_sources_of_setting {source : Source} (hf : f ∈ req.schema.fields)
    (hset : setting platform req f = some (source, raw)) (hlayer : source ≠ .default) :
    ((layering platform req).config.sources f.path).getD .file = source := by
  rw [layering_sources hf]
  unfold setting at hset
  split at hset
  · rename_i text hcli
    cases hset
    rw [hcli]
    rfl
  · rename_i text hcli henv
    cases hset
    rw [hcli, henv]
    rfl
  · rename_i v hcli henv hfile
    cases hset
    rw [hcli, henv]
    rfl
  · split_ifs at hset
    cases hset
    exact absurd rfl hlayer

end Sources

/-! ## Copied trees -/

section Dynamic
variable {merged effective : Value} {dynamic : List String} {place : List String} {above : String}

/-- The tree under the prefix is copied. -/
def Copied (merged : Value) (above : String) : Prop :=
  ∃ ms, merged.getAt (segments above) = some (.object ms)

theorem copyDynamic_of_copied {v : Value} (h : merged.getAt (segments above) = some v)
    (hobject : v.isObject = true) :
    copyDynamic merged effective above = effective.setAt (segments above) v := by
  unfold copyDynamic
  rw [h]
  cases v <;> first | rfl | cases hobject

theorem copyDynamic_of_not (h : ¬Copied merged above) : copyDynamic merged effective above = effective := by
  unfold copyDynamic
  split
  · rename_i ms hms
    exact absurd ⟨ms, hms⟩ h
  · rfl

/-- Below a copied prefix the tree has what the layers have; elsewhere it keeps what it had. -/
theorem getAt_copyDynamic
    (hplace : ∀ above ∈ dynamic, Copied merged above → place <+: segments above → place = segments above) :
    (dynamic.foldl (copyDynamic merged) effective).getAt place = effective.getAt place ∧
        (∀ above ∈ dynamic, Copied merged above → ¬segments above <+: place) ∨
      (dynamic.foldl (copyDynamic merged) effective).getAt place = merged.getAt place ∧
        ∃ above ∈ dynamic, Copied merged above ∧ segments above <+: place := by
  induction dynamic using List.reverseRecOn with
  | nil => exact .inl ⟨rfl, by simp⟩
  | append_singleton dynamic above ih =>
    have ih := ih fun a ha => hplace a (List.mem_append_left _ ha)
    rw [List.foldl_append, List.foldl_cons, List.foldl_nil]
    by_cases hcopied : Copied merged above
    · obtain ⟨ms, hms⟩ := hcopied
      rw [copyDynamic_of_copied hms rfl]
      by_cases hbelow : segments above <+: place
      · refine .inr ⟨?_, above, by simp, ⟨ms, hms⟩, hbelow⟩
        obtain ⟨rest, rfl⟩ := hbelow
        rw [Value.getAt_setAt_append, Value.getAt_append, hms, Option.bind_some]
      · have hapart : ¬Related (segments above) place := by
          rintro (h | h)
          · exact hbelow h
          · exact hbelow (hplace above (by simp) ⟨ms, hms⟩ h ▸ List.prefix_refl _)
        rw [Value.getAt_setAt_of_not_related hapart]
        rcases ih with ⟨hsame, hnone⟩ | ⟨hcopy, a, ha, hcopied, hway⟩
        · refine .inl ⟨hsame, fun a ha hcopied => ?_⟩
          rcases List.mem_append.mp ha with ha | ha
          · exact hnone a ha hcopied
          · exact List.mem_singleton.mp ha ▸ hbelow
        · exact .inr ⟨hcopy, a, List.mem_append_left _ ha, hcopied, hway⟩
    · rw [copyDynamic_of_not hcopied]
      rcases ih with ⟨hsame, hnone⟩ | ⟨hcopy, a, ha, hcopied', hway⟩
      · refine .inl ⟨hsame, fun a ha hcopied' => ?_⟩
        rcases List.mem_append.mp ha with ha | ha
        · exact hnone a ha hcopied'
        · exact absurd (List.mem_singleton.mp ha ▸ hcopied') hcopied
      · exact .inr ⟨hcopy, a, List.mem_append_left _ ha, hcopied', hway⟩

end Dynamic

end FileService.Configuration
