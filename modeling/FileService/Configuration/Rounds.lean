import FileService.Configuration.Layers

/-!
# The rounds of the loader

Every field is judged by itself. A round without a problem gives the field the
value that its text is converted to; what is in the tree in the end is decided
by the last writing, and afterwards by the copied trees.
-/
namespace FileService.Configuration
open FileService.Common FileService.Common.Json FileService.Common.DottedPath
open FileService.Common.Json.Value (emptyObject Related)

/-! ## Judging -/

section Judging
variable {platform : Platform} {req : LoadRequest} {f : FieldSpec} {raw v : Value} {source source' : Source}

/-- The text that is converted: references are replaced in the texts of strings only. -/
def finalText (platform : Platform) (req : LoadRequest) (f : FieldSpec) (text : String) : String :=
  if f.type = .string then (expandEnvRefs platform req text).1 else text

/-- The value is what the field makes of the raw one without any problem. -/
def Judged (platform : Platform) (req : LoadRequest) (f : FieldSpec) (raw v : Value) : Prop :=
  ∃ text items, rawTexts platform f.type raw = .ok (text, items) ∧
    converted f (finalText platform req f text) items = .ok v

theorem checkEnum_ok {v w : Value} (h : checkEnum platform f v = .ok w) : w = v := by
  unfold checkEnum at h
  dsimp only at h
  split_ifs at h
  exact (Except.ok.inj h).symm

theorem finalValue_ok {text : String} {items : List String} (h : finalValue platform f text items = .ok v) :
    converted f text items = .ok v := by
  unfold finalValue at h
  cases hconv : converted f text items with
  | error message =>
    rw [hconv] at h
    cases h
  | ok w =>
    rw [hconv] at h
    rw [checkEnum_ok h]

theorem convertField_snd {text : String} {items : List String} :
    (convertField platform f source text items).2 = (convertField platform f source' text items).2 := by
  unfold convertField
  cases finalValue platform f text items <;> rfl

theorem convertField_ok {text : String} {items : List String}
    (h : (convertField platform f source text items).1 = []) :
    ∃ v, (convertField platform f source text items).2 = some v ∧ converted f text items = .ok v := by
  unfold convertField at h ⊢
  cases hfinal : finalValue platform f text items with
  | error message =>
    rw [hfinal] at h
    cases h
  | ok v => exact ⟨v, rfl, finalValue_ok hfinal⟩

/-- The value does not depend on the layer that problems are reported for. -/
theorem judge_snd : (judge platform req f raw source).2 = (judge platform req f raw source').2 := by
  unfold judge
  rcases rawTexts platform f.type raw with message | ⟨text, items⟩
  · rfl
  · dsimp only
    by_cases htype : f.type ≠ .string
    · rw [if_pos htype, if_pos htype, convertField_snd]
    · rw [if_neg htype, if_neg htype]
      rcases expandEnvRefs platform req text with ⟨expanded, _ | var⟩
      · exact convertField_snd
      · dsimp only
        split_ifs
        · exact convertField_snd
        · rfl

theorem judged_of_judge (h : (judge platform req f raw source).1 = []) :
    ∃ v, (judge platform req f raw source).2 = some v ∧ Judged platform req f raw v := by
  unfold judge at h ⊢
  rcases hraw : rawTexts platform f.type raw with message | ⟨text, items⟩
  · rw [hraw] at h
    cases h
  · rw [hraw] at h
    dsimp only at h ⊢
    by_cases htype : f.type ≠ .string
    · rw [if_pos htype] at h ⊢
      obtain ⟨v, hv, hconv⟩ := convertField_ok h
      exact ⟨v, hv, text, items, hraw, by rw [finalText, if_neg htype, hconv]⟩
    · rw [if_neg htype] at h ⊢
      rcases hexpand : expandEnvRefs platform req text with ⟨expanded, _ | var⟩
      · rw [hexpand] at h
        obtain ⟨v, hv, hconv⟩ := convertField_ok h
        refine ⟨v, hv, text, items, hraw, ?_⟩
        rw [finalText, if_pos (not_not.mp htype), hexpand, hconv]
      · rw [hexpand] at h
        dsimp only at h
        split_ifs at h

end Judging

/-! ## The loop over the fields -/

section Loop
variable (platform : Platform) (req : LoadRequest) (merged : Value)

/-- What the field is read from: the tree of the layers, or else the default. -/
def found (f : FieldSpec) : Option Value :=
  match merged.getAt (segments f.path) with
  | some raw => some raw
  | none => if f.hasDefault then some (.string f.defaultValue) else none

/-- The value that the loop writes for a field. -/
def fieldValue (f : FieldSpec) : Option Value :=
  (found merged f).bind fun raw => (judge platform req f raw .file).2

def fieldWrite (f : FieldSpec) : Option (List String × Value) :=
  (fieldValue platform req merged f).map (segments f.path, ·)

def fieldWrites (fields : List FieldSpec) : List (List String × Value) :=
  fields.filterMap (fieldWrite platform req merged)

variable {platform req merged} {config : Config} {f : FieldSpec} {fields : List FieldSpec} {path : String}
  {raw v : Value} {source : Source}

theorem settle_problems {judged : List Problem × Option Value} :
    (settle config path source judged).problems = config.problems ++ judged.1 := by
  rcases judged with ⟨problems, _ | v⟩ <;> rfl

theorem settle_effective {judged : List Problem × Option Value} :
    (settle config path source judged).effective =
      config.effective.setAll (judged.2.map (segments path, ·)).toList := by
  rcases judged with ⟨problems, _ | v⟩ <;> rfl

theorem found_of_some (h : merged.getAt (segments f.path) = some raw) : found merged f = some raw := by
  rw [found, h]

theorem found_of_none (h : merged.getAt (segments f.path) = none) :
    found merged f = if f.hasDefault then some (.string f.defaultValue) else none := by
  rw [found, h]

theorem fieldValue_of_found (h : found merged f = some raw) :
    fieldValue platform req merged f = (judge platform req f raw source).2 := by
  rw [fieldValue, h, Option.bind_some, judge_snd]

theorem checkField_effective : (checkField platform req merged config f).effective =
    config.effective.setAll (fieldWrite platform req merged f).toList := by
  unfold checkField fieldWrite
  cases hraw : merged.getAt (segments f.path) with
  | some raw =>
    dsimp only
    rw [settle_effective, fieldValue_of_found (found_of_some hraw)]
  | none =>
    have hfound := found_of_none hraw
    dsimp only
    split_ifs with hdefault
    · rw [if_pos hdefault] at hfound
      rw [settle_effective, fieldValue_of_found hfound]
      rfl
    · rw [if_neg hdefault] at hfound
      rw [fieldValue, hfound]
      rfl
    · rw [if_neg hdefault] at hfound
      rw [fieldValue, hfound]
      rfl

theorem fieldWrites_cons : fieldWrites platform req merged (f :: fields) =
    (fieldWrite platform req merged f).toList ++ fieldWrites platform req merged fields := by
  rw [fieldWrites, List.filterMap_cons]
  cases fieldWrite platform req merged f <;> rfl

theorem fieldWrites_append {later : List FieldSpec} : fieldWrites platform req merged (fields ++ later) =
    fieldWrites platform req merged fields ++ fieldWrites platform req merged later := List.filterMap_append

theorem foldl_effective : (fields.foldl (checkField platform req merged) config).effective =
    config.effective.setAll (fieldWrites platform req merged fields) := by
  induction fields generalizing config with
  | nil => rfl
  | cons f fields ih =>
    rw [List.foldl_cons, ih, checkField_effective, ← Value.setAll_append, fieldWrites_cons]

theorem checkField_problems :
    config.problems <+: (checkField platform req merged config f).problems := by
  unfold checkField
  cases merged.getAt (segments f.path) with
  | some raw => exact settle_problems ▸ List.prefix_append _ _
  | none =>
    dsimp only
    split_ifs
    · exact settle_problems ▸ List.prefix_append _ _
    · exact List.prefix_append _ _
    · exact List.prefix_refl _

theorem foldl_problems :
    config.problems <+: (fields.foldl (checkField platform req merged) config).problems := by
  induction fields generalizing config with
  | nil => exact List.prefix_refl _
  | cons f fields ih => exact checkField_problems.trans ih

theorem problems_nil_of_foldl (h : (fields.foldl (checkField platform req merged) config).problems = []) :
    config.problems = [] := by
  have hgrows : config.problems <+: (fields.foldl (checkField platform req merged) config).problems :=
    foldl_problems
  rw [h] at hgrows
  exact List.prefix_nil.mp hgrows

/-- A round without a problem gives the field its value. -/
theorem judged_of_round (h : (checkField platform req merged config f).problems = [])
    (hfound : found merged f = some raw) :
    ∃ v, fieldValue platform req merged f = some v ∧ Judged platform req f raw v := by
  have hjudged : ∃ source, (judge platform req f raw source).1 = [] := by
    unfold checkField at h
    cases hraw : merged.getAt (segments f.path) with
    | some raw' =>
      rw [found_of_some hraw] at hfound
      obtain rfl := Option.some.inj hfound
      rw [hraw] at h
      dsimp only at h
      rw [settle_problems] at h
      exact ⟨_, (List.append_eq_nil_iff.mp h).2⟩
    | none =>
      rw [found_of_none hraw] at hfound
      split_ifs at hfound with hdefault
      obtain rfl := Option.some.inj hfound
      rw [hraw] at h
      dsimp only at h
      rw [if_pos hdefault, settle_problems] at h
      exact ⟨_, (List.append_eq_nil_iff.mp h).2⟩
  obtain ⟨source, hnone⟩ := hjudged
  obtain ⟨v, hv, hjudged⟩ := judged_of_judge hnone
  exact ⟨v, (fieldValue_of_found hfound).trans hv, hjudged⟩

theorem judged_of_loop (h : (fields.foldl (checkField platform req merged) config).problems = [])
    (hf : f ∈ fields) (hfound : found merged f = some raw) :
    ∃ v, fieldValue platform req merged f = some v ∧ Judged platform req f raw v := by
  obtain ⟨before, after, rfl⟩ := List.append_of_mem hf
  rw [List.foldl_append, List.foldl_cons] at h
  exact judged_of_round (problems_nil_of_foldl h) hfound

end Loop

end FileService.Configuration
