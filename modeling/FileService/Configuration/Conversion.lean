import FileService.Configuration.Rounds

/-!
# The way of a value through its text

A typed value stands for what a layer has if it is the same text, number, truth
value or list. The loader goes through a text on the way. For every type it is
decided which values come through their text unchanged: what the loader converts
stands for what the layer has just for these.
-/
namespace FileService.Configuration
open FileService.Common FileService.Common.Json FileService.Common.Text

/-! ## What a typed value stands for -/

/-- Floating point numbers as texts: which texts are read as a number, and that the short text of a
number is plain and no long one. -/
structure Numbers (platform : Platform) where
  spells : String → UInt64 → Prop
  spells_of_denoted : ∀ {text : String} {n : Int} {bits : UInt64}, denoted text = some n →
    (spells text bits ↔ spells (toString n) bits)
  floatText_plain : ∀ bits, ∀ c ∈ (platform.floatText bits).toList, c ∈ "0123456789+-.einfa".toList
  floatText_fits : ∀ {bits : UInt64} {n : Int}, denoted (platform.floatText bits) = some n → FitsLong n

section Standing
variable {platform : Platform} (numbers : Numbers platform) (req : LoadRequest)

/-- The text says what the value is. -/
def Says : Value → String → Prop
  | .string s, text => text = s
  | .boolean b, text => text = if b then "true" else "false"
  | .integer n, text => text = toString n
  | .float bits, text => numbers.spells text bits
  | _, _ => False

/-- The typed value is the one of what a layer has. -/
def Stands : Value → Typed → Prop
  | .string s, .string t => t = (expandEnvRefs platform req s).1
  | raw, .string t => Says numbers raw t
  | .string s, .int n => denoted s = some n
  | .integer m, .int n => n = m
  | .float bits, .int n => numbers.spells (toString n) bits
  | .boolean b, .bool t => t = b
  | .string s, .bool t => parseBool s = some t
  | .integer n, .bool t => n = if t then 1 else 0
  | .float bits, .bool t => numbers.spells (if t then "1" else "0") bits
  | .string s, .stringList items => items = commaItems s
  | .array raws, .stringList items => List.Forall₂ (Says numbers) raws items
  | _, _ => False

/-- The loader has a text for the value that says the same. -/
def Rendered : Value → Prop
  | .string _ => True
  | .boolean _ => True
  | .integer n => FitsLong n
  | .float bits => numbers.spells (platform.floatText bits) bits
  | _ => False

/-- What a layer has is converted without a change. -/
def Exact : ValueType → Value → Prop
  | .int, .string s => ∃ n, denoted s = some n ∧ FitsLong n
  | .stringList, .string _ => True
  | .stringList, .array raws => ∀ raw ∈ raws, Rendered numbers raw
  | .stringList, _ => False
  | _, raw => Rendered numbers raw

/-- What a layer has can be read as it is. -/
def Direct : ValueType → Value → Prop
  | .string, .string s => (expandEnvRefs platform req s).1 = s
  | .int, .integer n => FitsLong n
  | .bool, .boolean _ => True
  | .stringList, .array raws => ∀ raw ∈ raws, Rendered numbers raw
  | _, _ => False

/-- A number is within the declared range. -/
def InRange (f : FieldSpec) : Typed → Prop
  | .int n => f.minValue ≤ f.maxValue → f.minValue ≤ n ∧ n ≤ f.maxValue
  | _ => True

end Standing

/-- What the reader of the type makes of a value. -/
def shown (platform : Platform) : ValueType → Value → Option Typed
  | .string, .string s => some (.string s)
  | .int, .integer n => some (.int (asLong n))
  | .bool, .boolean b => some (.bool b)
  | .stringList, .array items => some (.stringList (items.map (renderScalar platform)))
  | _, _ => none

section Reading
variable {platform : Platform} {config : Config} {f : FieldSpec} {t : Typed} {v : Value}

theorem read_ok_iff : config.read platform f = .ok t ↔
    (config.effective.getAt (DottedPath.segments f.path)).bind (shown platform f.type) = some t := by
  unfold Config.read Config.getString Config.getInt Config.getBool Config.getStringList
  cases f.type <;> cases config.effective.getAt (DottedPath.segments f.path) with
  | none => simp [Except.map]
  | some v => cases v <;> simp [Except.map, shown]

/-- Objects are not shown. -/
theorem shown_of_isObject (h : v.isObject = true) : shown platform f.type v = none := by
  cases v with
  | object ms => cases f.type <;> rfl
  | _ => cases h

end Reading

/-! ## Texts of values -/

section Texts
variable {platform : Platform} {numbers : Numbers platform} {req : LoadRequest} {n : Int} {b : Bool}
  {bits : UInt64} {text : String} {raw : Value}

theorem asLong_of_fits (h : FitsLong n) : asLong n = n := by
  obtain ⟨hlow, hhigh⟩ := h
  unfold Http.int64Min at hlow
  unfold Http.int64Max at hhigh
  unfold asLong
  omega

theorem fits_asLong : FitsLong (asLong n) := by
  unfold FitsLong asLong Http.int64Min Http.int64Max
  omega

theorem toString_asLong_iff : toString (asLong n) = toString n ↔ FitsLong n := by
  constructor
  · intro h
    exact Decimal.toString_injective h ▸ fits_asLong
  · intro h
    rw [asLong_of_fits h]

/-- The rendered text says what the value is just when the value is rendered without a change. -/
theorem says_renderScalar : Says numbers raw (renderScalar platform raw) ↔ Rendered numbers raw := by
  cases raw with
  | integer n => exact toString_asLong_iff
  | _ => simp [Says, Rendered, renderScalar]

theorem forall₂_says {raws : List Value} :
    List.Forall₂ (Says numbers) raws (raws.map (renderScalar platform)) ↔ ∀ raw ∈ raws, Rendered numbers raw := by
  rw [List.forall₂_map_right_iff, List.forall₂_same]
  simp only [says_renderScalar]

theorem asLong_eq_iff : asLong n = n ↔ FitsLong n :=
  ⟨fun h => h ▸ fits_asLong, asLong_of_fits⟩

theorem fits_of_parseLong (h : parseLong text = some n) : FitsLong n := by
  unfold parseLong at h
  rcases hread : Http.strtoll (cString text) with ⟨v, rest⟩
  rw [hread] at h
  cases rest with
  | nil =>
    dsimp only at h
    split_ifs at h with hnil
    obtain ⟨m, -, hm⟩ := numeral_of_strtoll hread hnil
    rw [← Option.some.inj h, hm]
    exact fits_saturate
  | cons c rest => cases h

/-! ### References and truth values in texts of numbers -/

theorem expandFrom_of_notMem {lookup : String → Option String} {s : List Char} (h : '$' ∉ s) :
    expandFrom lookup s 0 = (s, none) := by
  induction s with
  | nil => rfl
  | cons c s ih =>
    have hmarker : marker.isPrefixOf (c :: s) = false := by
      have hc : ('$' == c) = false := beq_eq_false_iff_ne.mpr fun heq => h (heq ▸ List.mem_cons_self)
      change ('$' :: "\x7bENV:".toList).isPrefixOf (c :: s) = false
      rw [List.isPrefixOf, hc, Bool.false_and]
    rw [expandFrom, hmarker, ih fun hs => h (List.mem_cons_of_mem _ hs)]
    rfl

theorem expandEnvRefs_of_notMem (h : '$' ∉ text.toList) : expandEnvRefs platform req text = (text, none) := by
  rw [expandEnvRefs, expandFrom_of_notMem h]
  dsimp only
  rw [String.ofList_toList]

theorem toLower_eq (h : ∀ c ∈ text.toList, c.toLower = c) : toLower text = text := by
  rw [toLower, List.map_congr_left h, List.map_id', String.ofList_toList]

theorem toLower_of_denoted (h : denoted text = some n) : toLower text = text := by
  refine toLower_eq fun c hc => ?_
  unfold Char.toLower
  split_ifs with hupper
  · have hlow : 65 ≤ c.toNat := UInt32.le_iff_toNat_le.mp hupper.1
    have hne : ∀ d : Char, d.toNat < 65 → c ≠ d := by
      rintro d hd rfl
      omega
    have hspace : Http.isSpace c = false := by
      simp only [Http.isSpace, beq_eq_false_iff_ne.mpr (hne ' ' (by decide)), Bool.false_or,
        Bool.and_eq_false_iff, decide_eq_false_iff_not]
      omega
    have hdigit : Http.isDigit c = false := by
      have hhigh : ¬c ≤ '9' := by
        intro hle
        have hnat : c.toNat ≤ 57 := UInt32.le_iff_toNat_le.mp hle
        omega
      simp [Http.isDigit, hhigh]
    exact absurd hc (notMem_of_numeral h hspace ⟨hne '-' (by decide), hne '+' (by decide)⟩ hdigit)
  · rfl

/-- The words for truth values. -/
theorem parseBool_cases (h : parseBool text = some b) :
    b = true ∧ toLower text ∈ ["true", "1", "yes", "on"] ∨
      b = false ∧ toLower text ∈ ["false", "0", "no", "off"] := by
  unfold parseBool at h
  dsimp only at h
  split_ifs at h with htrue hfalse
  · exact .inl ⟨(Option.some.inj h).symm, htrue⟩
  · exact .inr ⟨(Option.some.inj h).symm, hfalse⟩

theorem parseBool_of_denoted (hn : denoted text = some n) (hb : parseBool text = some b) :
    n = if b then 1 else 0 := by
  have hwords := parseBool_cases hb
  rw [toLower_of_denoted hn] at hwords
  rcases hwords with ⟨rfl, hmem⟩ | ⟨rfl, hmem⟩ <;>
    simp only [List.mem_cons, List.not_mem_nil, or_false] at hmem <;>
    rcases hmem with rfl | rfl | rfl | rfl <;> cases hn <;> rfl

theorem parseBool_of_plain (hplain : ∀ c ∈ text.toList, c ∈ "0123456789+-.einfa".toList)
    (hb : parseBool text = some b) : text = if b then "1" else "0" := by
  have hlower : toLower text = text := toLower_eq fun c hc => by
    have hall : "0123456789+-.einfa".toList.all (fun c => c.toLower == c) = true := by decide
    simpa using List.all_eq_true.mp hall c (hplain c hc)
  have hwords := parseBool_cases hb
  rw [hlower] at hwords
  have hletters : ∀ c, c ∈ ['r', 'y', 'o', 'l'] → c ∉ text.toList := by
    intro c hc hmem
    have hnone : ['r', 'y', 'o', 'l'].all (fun c => !"0123456789+-.einfa".toList.contains c) = true := by
      decide
    have hother := List.all_eq_true.mp hnone c hc
    rw [List.contains_iff_mem.mpr (hplain c hmem)] at hother
    cases hother
  rcases hwords with ⟨rfl, hmem⟩ | ⟨rfl, hmem⟩ <;>
    simp only [List.mem_cons, List.not_mem_nil, or_false] at hmem
  · rcases hmem with rfl | rfl | rfl | rfl
    · exact absurd (by decide) (hletters 'r' (by decide))
    · rfl
    · exact absurd (by decide) (hletters 'y' (by decide))
    · exact absurd (by decide) (hletters 'o' (by decide))
  · rcases hmem with rfl | rfl | rfl | rfl
    · exact absurd (by decide) (hletters 'l' (by decide))
    · rfl
    · exact absurd (by decide) (hletters 'o' (by decide))
    · exact absurd (by decide) (hletters 'o' (by decide))

theorem notMem_floatText (numbers : Numbers platform) {c : Char} (h : "0123456789+-.einfa".toList.contains c = false) :
    c ∉ (platform.floatText bits).toList := by
  intro hc
  have hmem := numbers.floatText_plain bits c hc
  rw [← Bool.not_eq_true, List.contains_iff_mem] at h
  exact h hmem

/-- There are no references in the texts of other values than strings. -/
theorem expandEnvRefs_renderScalar (numbers : Numbers platform) (h : ∀ s, raw ≠ .string s) :
    expandEnvRefs platform req (renderScalar platform raw) = (renderScalar platform raw, none) := by
  refine expandEnvRefs_of_notMem ?_
  cases raw with
  | string s => exact absurd rfl (h s)
  | boolean b => cases b <;> simp [renderScalar]
  | integer n => exact notMem_of_numeral denoted_toString rfl (by decide) rfl
  | float bits => exact notMem_floatText numbers (by decide)
  | _ => simp [renderScalar]

end Texts

/-! ## Judged values -/

section Judged
variable {platform : Platform} {numbers : Numbers platform} {req : LoadRequest} {f : FieldSpec}
  {raw v : Value}

theorem judged_string (htype : f.type = .string) (h : Judged platform req f raw v) :
    (∀ ms, raw ≠ .object ms) ∧ v = .string (expandEnvRefs platform req (renderScalar platform raw)).1 := by
  obtain ⟨text, items, hraw, hconv⟩ := h
  rw [finalText, if_pos htype] at hconv
  rw [htype] at hraw
  simp only [converted, htype] at hconv
  cases raw with
  | object ms => cases hraw
  | _ =>
    cases hraw
    exact ⟨fun ms hms => (by cases hms), (Except.ok.inj hconv).symm⟩

theorem judged_int (htype : f.type = .int) (h : Judged platform req f raw v) :
    ∃ n, parseLong (renderScalar platform raw) = some n ∧ v = .integer n ∧ InRange f (.int n) := by
  obtain ⟨text, items, hraw, hconv⟩ := h
  rw [finalText, if_neg (by simp [htype])] at hconv
  have htext : text = renderScalar platform raw := by
    rw [htype] at hraw
    cases raw <;> cases hraw <;> rfl
  subst htext
  simp only [converted, htype] at hconv
  cases hn : parseLong (renderScalar platform raw) with
  | none =>
    rw [hn] at hconv
    cases hconv
  | some n =>
    rw [hn] at hconv
    dsimp only at hconv
    split_ifs at hconv with hrange
    refine ⟨n, rfl, (Except.ok.inj hconv).symm, fun hle => ?_⟩
    by_contra hout
    exact hrange ⟨hle, by omega⟩

theorem judged_bool (htype : f.type = .bool) (h : Judged platform req f raw v) :
    ∃ b, parseBool (renderScalar platform raw) = some b ∧ v = .boolean b := by
  obtain ⟨text, items, hraw, hconv⟩ := h
  rw [finalText, if_neg (by simp [htype])] at hconv
  have htext : text = renderScalar platform raw := by
    rw [htype] at hraw
    cases raw <;> cases hraw <;> rfl
  subst htext
  simp only [converted, htype] at hconv
  cases hb : parseBool (renderScalar platform raw) with
  | none =>
    rw [hb] at hconv
    cases hconv
  | some b =>
    rw [hb] at hconv
    exact ⟨b, rfl, (Except.ok.inj hconv).symm⟩

theorem judged_stringList (htype : f.type = .stringList) (h : Judged platform req f raw v) :
    (∃ s, raw = .string s ∧ v = .array ((commaItems s).map .string)) ∨
      ∃ raws, raw = .array raws ∧ v = .array ((raws.map (renderScalar platform)).map .string) := by
  obtain ⟨text, items, hraw, hconv⟩ := h
  rw [htype] at hraw
  simp only [converted, htype] at hconv
  cases raw with
  | string s =>
    cases hraw
    exact .inl ⟨s, rfl, (Except.ok.inj hconv).symm⟩
  | array raws =>
    cases hraw
    exact .inr ⟨raws, rfl, (Except.ok.inj hconv).symm⟩
  | _ => cases hraw

/-! ### What is kept on the way -/

theorem stands_string_iff (hraw : ∀ ms, raw ≠ .object ms) :
    Stands numbers req raw (.string (expandEnvRefs platform req (renderScalar platform raw)).1) ↔
      Rendered numbers raw := by
  by_cases hstring : ∃ s, raw = .string s
  · obtain ⟨s, rfl⟩ := hstring
    exact iff_of_true rfl trivial
  · have hother : ∀ s, raw ≠ .string s := fun s hs => hstring ⟨s, hs⟩
    rw [expandEnvRefs_renderScalar numbers hother, ← says_renderScalar]
    cases raw with
    | string s => exact absurd rfl (hother s)
    | _ => rfl

theorem stands_int_iff {n : Int} (h : parseLong (renderScalar platform raw) = some n) :
    Stands numbers req raw (.int n) ↔ Exact numbers .int raw := by
  cases raw with
  | string s => exact denoted_eq_iff h
  | integer m =>
    have hn : n = asLong m := by
      rw [renderScalar, parseLong_toString fits_asLong] at h
      exact (Option.some.inj h).symm
    rw [hn]
    exact asLong_eq_iff
  | float bits =>
    have hnul : '\x00' ∉ (platform.floatText bits).toList := notMem_floatText numbers (by decide)
    obtain ⟨m, hm, hn⟩ := denoted_of_parseLong h hnul
    rw [saturate_of_fits (numbers.floatText_fits hm)] at hn
    exact (numbers.spells_of_denoted (hn ▸ hm)).symm
  | boolean b =>
    have hnone : parseLong (if b then "true" else "false") = none := by cases b <;> decide
    cases h.symm.trans hnone
  | _ => cases h

theorem stands_bool_iff {b : Bool} (h : parseBool (renderScalar platform raw) = some b) :
    Stands numbers req raw (.bool b) ↔ Exact numbers .bool raw := by
  cases raw with
  | string s => exact iff_of_true h trivial
  | boolean b' =>
    have hword : parseBool (if b' then "true" else "false") = some b' := by cases b' <;> decide
    exact iff_of_true (Option.some.inj (h.symm.trans hword)) trivial
  | integer n =>
    have hword := parseBool_of_denoted denoted_toString h
    constructor
    · intro hn
      change n = if b then 1 else 0 at hn
      cases b <;> subst hn <;> exact ⟨by decide, by decide⟩
    · intro hfits
      rwa [asLong_of_fits hfits] at hword
  | float bits =>
    have htext := parseBool_of_plain (numbers.floatText_plain bits) h
    change numbers.spells (if b then "1" else "0") bits ↔ numbers.spells (platform.floatText bits) bits
    rw [htext]
  | _ => cases h

/-- What the loader converts stands for what the layer has just when it is exact. -/
theorem exact_iff (h : Judged platform req f raw v) :
    (∃ t, shown platform f.type v = some t ∧ Stands numbers req raw t ∧ InRange f t) ↔
      Exact numbers f.type raw := by
  cases htype : f.type with
  | string =>
    obtain ⟨hobject, rfl⟩ := judged_string htype h
    have hrendered : Exact numbers .string raw ↔ Rendered numbers raw := by cases raw <;> rfl
    have hstands : Stands numbers req raw (.string (expandEnvRefs platform req
        (renderScalar platform raw)).1) ↔ Rendered numbers raw := stands_string_iff hobject
    rw [hrendered, ← hstands]
    simp [shown, InRange]
  | int =>
    obtain ⟨n, hn, rfl, hrange⟩ := judged_int htype h
    have hstands : Stands numbers req raw (.int n) ↔ Exact numbers .int raw := stands_int_iff hn
    rw [← hstands]
    simp [shown, asLong_of_fits (fits_of_parseLong hn), hrange]
  | bool =>
    obtain ⟨b, hb, rfl⟩ := judged_bool htype h
    have hstands : Stands numbers req raw (.bool b) ↔ Exact numbers .bool raw := stands_bool_iff hb
    rw [← hstands]
    simp [shown, InRange]
  | stringList =>
    have hitems : ∀ items : List String, (items.map Value.string).map (renderScalar platform) = items := by
      intro items
      rw [List.map_map]
      exact List.map_id items
    rcases judged_stringList htype h with ⟨s, rfl, rfl⟩ | ⟨raws, rfl, rfl⟩
    · refine iff_of_true ⟨_, rfl, ?_, trivial⟩ trivial
      exact hitems _
    · simp only [shown, hitems, Option.some.injEq, exists_eq_left', Exact, ← forall₂_says]
      exact and_iff_left trivial

/-- What is read as it stands in the layer stands for it just when it can be read so. -/
theorem direct_iff (h : Judged platform req f raw v) :
    (∃ t, shown platform f.type raw = some t ∧ Stands numbers req raw t ∧ InRange f t) ↔
      Direct numbers req f.type raw := by
  cases htype : f.type with
  | string =>
    cases raw with
    | string s => simp [shown, InRange, Stands, Direct, eq_comm]
    | _ => simp [shown, Direct]
  | int =>
    obtain ⟨n, hn, rfl, hrange⟩ := judged_int htype h
    cases raw with
    | integer m =>
      rw [renderScalar, parseLong_toString fits_asLong] at hn
      obtain rfl := Option.some.inj hn
      simp [shown, Stands, Direct, hrange, asLong_eq_iff]
    | _ => simp [shown, Direct]
  | bool =>
    cases raw with
    | boolean b => simp [shown, InRange, Stands, Direct]
    | _ => simp [shown, Direct]
  | stringList =>
    cases raw with
    | array raws => simp [shown, InRange, Stands, Direct, says_renderScalar]
    | _ => simp [shown, Direct]

end Judged

end FileService.Configuration
