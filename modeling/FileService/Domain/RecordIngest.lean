import FileService.Domain.RecordRoundTrip
import FileService.Domain.Schedule

/-!
# What a record keeps of its request

A known member is kept if it has the type that its reader expects, and is lost
otherwise. All other members are kept as they are.
-/
namespace FileService.Domain
open FileService.Common FileService.Common.Json FileService.Common.Json.Value

/-! ## Shapes of members -/

/-- The ways in which a known member is read and written. -/
inductive Shape where
  | text
  | requiredText
  | texts
  | someTexts
  | status
deriving DecidableEq

namespace Shape

/-- What is written for a member that was read. -/
def written : Shape → Option Value → Option Value
  | text, x => textMember (readText x)
  | requiredText, x => some (.string ((readText x).getD ""))
  | texts, x => some (strings (readTexts x))
  | someTexts, x => if (readTexts x).isEmpty then none else some (strings (readTexts x))
  | status, x => some (.string (legalStatusName (readStatus (readText x))))

def isTexts : Value → Bool
  | .array items => items.all fun item => item.asString?.isSome
  | _ => false

/-- The values that are written as they were read. -/
def admits : Shape → Value → Bool
  | text, .string _ => true
  | requiredText, .string _ => true
  | texts, x => isTexts x
  | someTexts, x => isTexts x && !x.isEmpty
  | status, .string s => s == "compliant" || s == "incompliant"
  | _, _ => false

end Shape

section Shapes
variable {exempt : List (List String)} {name : String} {x : Value}

theorem map_filterMap_asString_iff (items : List Value) :
    (items.filterMap Value.asString?).map .string = items ↔
      items.all (fun item => item.asString?.isSome) = true := by
  induction items with
  | nil => simp
  | cons item items ih =>
    cases item with
    | string s => simpa [Value.asString?] using ih
    | _ =>
      simp only [List.filterMap_cons, Value.asString?, List.all_cons]
      constructor
      · intro h
        have hlength := congrArg List.length h
        have hle := List.length_filterMap_le Value.asString? items
        simp only [List.length_map, List.length_cons] at hlength
        omega
      · simp

theorem strings_readTexts_iff :
    strings (readTexts (some x)) = x ↔ Shape.isTexts x = true := by
  cases x with
  | array items =>
    simp only [readTexts, strings, Value.array.injEq, Shape.isTexts]
    exact map_filterMap_asString_iff items
  | _ => simp [readTexts, strings, Shape.isTexts]

/-- What is found for a member that is no object is the member, or else it is lost. -/
theorem keepsMember_flat_iff {found : Option Value} (hname : [name] ∉ exempt)
    (hfound : ∀ y, found = some y → y.isObject = false) :
    KeepsMember exempt name x found ↔ x.isBlank = true ∨ found = some x := by
  have hexempt : [] ∉ tails name exempt := fun h => hname (mem_tails.mp h)
  unfold KeepsMember
  cases hblank : x.isBlank with
  | true => simp
  | false =>
    simp only [Bool.false_eq_true, false_or]
    constructor
    · rintro (h | ⟨y, hy, hkeeps⟩)
      · exact absurd h hname
      have hflat := hfound y hy
      cases hx : x.isObject with
      | true =>
        have hobject := ((keeps_object_iff hx hexempt).mp hkeeps).1
        rw [hflat] at hobject
        cases hobject
      | false => rw [hy, (keeps_of_not_isObject hx hblank hexempt).mp hkeeps]
    · rintro rfl
      exact .inr ⟨x, rfl, keeps_refl _ x⟩

theorem someTexts_written_iff :
    Shape.someTexts.written (some x) = some x ↔ Shape.someTexts.admits x = true := by
  simp only [Shape.written, Shape.admits, Bool.and_eq_true, Bool.not_eq_true']
  by_cases htexts : Shape.isTexts x = true
  · have hx := strings_readTexts_iff.mpr htexts
    have hempty : x.isEmpty = (readTexts (some x)).isEmpty := by
      have hstrings : ∀ texts, (strings texts).isEmpty = texts.isEmpty := by
        simp [strings, Value.isEmpty]
      rw [← hstrings, hx]
    rw [hempty, hx]
    cases (readTexts (some x)).isEmpty <;> simp [htexts]
  · have hne : strings (readTexts (some x)) ≠ x := fun h => htexts (strings_readTexts_iff.mp h)
    cases (readTexts (some x)).isEmpty <;> simp [htexts, hne]

theorem status_written_iff : x.isBlank = true ∨ Shape.status.written (some x) = some x ↔
    x.isBlank = true ∨ Shape.status.admits x = true := by
  cases x with
  | string s =>
    by_cases hcompliant : s = "compliant"
    · subst hcompliant
      simp [Shape.written, Shape.admits, readText, readStatus, parseLegalStatus, legalStatusName]
    by_cases hincompliant : s = "incompliant"
    · subst hincompliant
      simp [Shape.written, Shape.admits, readText, readStatus, parseLegalStatus, legalStatusName]
    by_cases hempty : s = ""
    · simp [isBlank, hempty]
    have hne : "compliant" ≠ s := fun h => hcompliant h.symm
    simp [Shape.written, Shape.admits, readText, readStatus, parseLegalStatus, legalStatusName, isBlank,
      hcompliant, hincompliant, hempty, hne]
  | _ => simp [Shape.written, Shape.admits, readText, readStatus, legalStatusName, isBlank]

theorem isObject_written (shape : Shape) {found : Option Value} {y : Value}
    (h : shape.written found = some y) : y.isObject = false := by
  cases shape with
  | text =>
    have htext : textMember (readText found) = some y := h
    unfold textMember at htext
    split at htext
    · split_ifs at htext
      cases htext
      rfl
    · cases htext
  | someTexts =>
    simp only [Shape.written] at h
    split_ifs at h
    cases h
    rfl
  | _ =>
    cases h
    rfl

/-- A member is kept exactly if it is written as it was read, or does not count. -/
theorem keepsMember_written_iff (shape : Shape) (hname : [name] ∉ exempt) :
    KeepsMember exempt name x (shape.written (some x)) ↔
      x.isBlank = true ∨ shape.admits x = true := by
  rw [keepsMember_flat_iff hname]
  · cases shape with
    | text =>
      cases x with
      | string s => by_cases hs : s = "" <;> simp [Shape.written, Shape.admits, readText, textMember, isBlank, hs]
      | _ => simp [Shape.written, Shape.admits, readText, textMember, isBlank]
    | requiredText =>
      cases x with
      | string s => by_cases hs : s = "" <;> simp [Shape.written, Shape.admits, readText, isBlank, hs]
      | _ => simp [Shape.written, Shape.admits, readText, isBlank]
    | texts => simp [Shape.written, Shape.admits, strings_readTexts_iff]
    | someTexts => rw [someTexts_written_iff]
    | status => exact status_written_iff
  · exact fun y => isObject_written shape

end Shapes

/-! ## Sections of one level -/

/-- The known members that count have a value that is kept. -/
def Typed (exempt : List (List String)) (members : List (String × Shape)) (v : Value) : Prop :=
  ∀ m ∈ members, [m.1] ∉ exempt → ∀ x, v.find? m.1 = some x →
    x.isBlank = true ∨ m.2.admits x = true

def aclMembers : List (String × Shape) := [("viewers", .texts), ("owners", .texts)]

def legalMembers : List (String × Shape) :=
  [("legaltags", .texts), ("otherRelevantDataCountries", .texts), ("status", .status)]

def ancestryMembers : List (String × Shape) := [("parent", .text), ("parents", .someTexts)]

def fileSourceInfoMembers : List (String × Shape) :=
  [("FileSource", .requiredText), ("PreloadFilePath", .text), ("PreloadFileCreateUser", .text),
    ("PreloadFileCreateDate", .text), ("PreloadFileModifyUser", .text),
    ("PreloadFileModifyDate", .text), ("Name", .text), ("FileSize", .text),
    ("EncodingFormatTypeID", .text), ("Checksum", .text), ("ChecksumAlgorithm", .text)]

section Sections
variable {exempt : List (List String)} {members : List (String × Shape)} {v w : Value}
variable {name : String}

/-- A section with known members of these shapes and others. -/
theorem keeps_section_and_iff {others : List String} (hv : v.isObject = true)
    (hw : w.isObject = true) (hexempt : [] ∉ exempt)
    (hunknown : ∀ name ∉ members.map Prod.fst ++ others, w.find? name = v.find? name)
    (hknown : ∀ m ∈ members, w.find? m.1 = m.2.written (v.find? m.1)) :
    Keeps exempt v w ↔ Typed exempt members v ∧
      ∀ name ∈ others, ∀ x, v.find? name = some x → KeepsMember exempt name x (w.find? name) := by
  rw [keeps_known_iff hv hw hexempt hunknown]
  simp only [List.mem_append, or_imp, forall_and, List.mem_map, forall_exists_index, and_imp,
    forall_apply_eq_imp_iff₂, Typed]
  apply and_congr_left'
  apply forall₂_congr
  intro m hm
  by_cases hname : [m.1] ∈ exempt
  · simp [KeepsMember, hname]
  · simp only [hname, not_false_eq_true, forall_const]
    apply forall₂_congr
    intro x hx
    rw [hknown m hm, hx]
    exact keepsMember_written_iff m.2 hname

theorem keeps_section_iff (hv : v.isObject = true) (hw : w.isObject = true) (hexempt : [] ∉ exempt)
    (hunknown : ∀ name ∉ members.map Prod.fst, w.find? name = v.find? name)
    (hknown : ∀ m ∈ members, w.find? m.1 = m.2.written (v.find? m.1)) :
    Keeps exempt v w ↔ Typed exempt members v := by
  have hnone : ∀ name ∉ members.map Prod.fst ++ [], w.find? name = v.find? name := by
    simpa using hunknown
  rw [keeps_section_and_iff hv hw hexempt hnone hknown]
  simp

theorem keeps_acl_iff (hv : v.isObject = true) (hexempt : [] ∉ exempt) :
    Keeps exempt v (aclToJson (aclFromJson v)) ↔ Typed exempt aclMembers v := by
  apply keeps_section_iff hv rfl hexempt
  · intro name hname
    simp_all [aclMembers, aclToJson, aclFromJson, aclKnown]
  · simp [aclMembers, aclToJson, aclFromJson, Shape.written, getStrings_eq]

theorem keeps_legal_iff (hv : v.isObject = true) (hexempt : [] ∉ exempt) :
    Keeps exempt v (legalToJson (legalFromJson v)) ↔ Typed exempt legalMembers v := by
  apply keeps_section_iff hv rfl hexempt
  · intro name hname
    simp_all [legalMembers, legalToJson, legalFromJson, legalKnown]
  · simp [legalMembers, legalToJson, legalFromJson, Shape.written, getStrings_eq, getOpt_eq]

theorem keeps_ancestry_iff (hv : v.isObject = true) (hexempt : [] ∉ exempt) :
    Keeps exempt v (ancestryToJson (ancestryFromJson v)) ↔ Typed exempt ancestryMembers v := by
  have hparent : (v.without ancestryKnown).find? "parent" = none := by simp [ancestryKnown]
  have hparents : (v.without ancestryKnown).find? "parents" = none := by simp [ancestryKnown]
  have htext := readText_ne_empty (v.find? "parent")
  have hobject := isObject_ancestryToJson (a := ancestryFromJson v) (extra_without v ancestryKnown)
  apply keeps_section_iff hv hobject hexempt
  · intro name hname
    simp only [ancestryMembers, List.map_cons, List.map_nil, List.mem_cons, List.not_mem_nil,
      or_false, not_or] at hname
    have hextra : (v.without ancestryKnown).find? name = v.find? name := by
      simp [ancestryKnown, hname]
    simp only [ancestryToJson, ancestryFromJson, getOpt_eq]
    cases readText (v.find? "parent") <;> simp [hname, hextra]
  · simp only [ancestryMembers, List.forall_mem_cons, Shape.written, ancestryToJson,
      ancestryFromJson, getOpt_eq, getStrings_eq]
    cases hread : readText (v.find? "parent") with
    | none => simp [textMember, hparent, hparents]
    | some s => simp_all [textMember]

theorem keeps_fileSourceInfo_iff (hv : v.isObject = true) (hexempt : [] ∉ exempt) :
    Keeps exempt v (fileSourceInfoToJson (fileSourceInfoFromJson v)) ↔
      Typed exempt fileSourceInfoMembers v := by
  have hnone : ∀ name ∈ fileSourceInfoKnown, (v.without fileSourceInfoKnown).find? name = none :=
    fun name => (extra_without v fileSourceInfoKnown).find?_eq_none
  apply keeps_section_iff hv (isObject_fileSourceInfoToJson _) hexempt
  · intro name hname
    simp_all [fileSourceInfoMembers, fileSourceInfoToJson, fileSourceInfoFromJson,
      fileSourceInfoKnown]
  · simp only [fileSourceInfoToJson, fileSourceInfoFromJson, objectOr_without, getOpt_eq]
    generalize v.without fileSourceInfoKnown = extra at hnone
    simp only [fileSourceInfoKnown, List.forall_mem_cons] at hnone
    simp_all [fileSourceInfoMembers, Shape.written]

/-- The members of the data but the two sections in it. -/
def fileDataMembers : List (String × Shape) :=
  [("Name", .text), ("Description", .text), ("TotalSize", .text), ("EncodingFormatTypeID", .text),
    ("SchemaFormatTypeID", .text), ("Endian", .text), ("Checksum", .text),
    ("ChecksumAlgorithm", .text), ("ResourceHomeRegionID", .text),
    ("ResourceHostRegionIDs", .someTexts), ("ResourceCurationStatus", .text),
    ("ResourceLifecycleStatus", .text), ("ResourceSecurityClassification", .text),
    ("Source", .text), ("ExistenceKind", .text)]

theorem keeps_datasetProperties_iff (hv : v.isObject = true) (hexempt : [] ∉ exempt) :
    Keeps exempt v (datasetPropertiesToJson (datasetPropertiesFromJson v)) ↔
      ∀ x, v.find? "FileSourceInfo" = some x → KeepsMember exempt "FileSourceInfo" x
        (some (fileSourceInfoToJson (datasetPropertiesFromJson v).fileSourceInfo)) := by
  have hunknown : ∀ name ∉ datasetPropertiesKnown,
      (datasetPropertiesToJson (datasetPropertiesFromJson v)).find? name = v.find? name := by
    intro name hname
    simp_all [datasetPropertiesKnown, datasetPropertiesToJson, datasetPropertiesFromJson]
  rw [keeps_known_iff hv rfl hexempt hunknown]
  simp [datasetPropertiesKnown, datasetPropertiesToJson]

theorem keeps_fileData_iff (hv : v.isObject = true) (hexempt : [] ∉ exempt) :
    Keeps exempt v (fileDataToJson (fileDataFromJson v)) ↔ Typed exempt fileDataMembers v ∧
      (∀ x, v.find? "DatasetProperties" = some x → KeepsMember exempt "DatasetProperties" x
        (some (datasetPropertiesToJson (fileDataFromJson v).datasetProperties))) ∧
      ∀ x, v.find? "ExtensionProperties" = some x →
        KeepsMember exempt "ExtensionProperties" x (some (objectOr x)) := by
  have hnone : ∀ name ∈ fileDataKnown, (v.without fileDataKnown).find? name = none :=
    fun name => (extra_without v fileDataKnown).find?_eq_none
  have hunknown : ∀ name ∉ fileDataMembers.map Prod.fst ++ ["DatasetProperties", "ExtensionProperties"],
      (fileDataToJson (fileDataFromJson v)).find? name = v.find? name := by
    intro name hname
    simp_all [fileDataMembers, fileDataToJson, fileDataFromJson, fileDataKnown]
  have hknown : ∀ m ∈ fileDataMembers,
      (fileDataToJson (fileDataFromJson v)).find? m.1 = m.2.written (v.find? m.1) := by
    clear hunknown
    simp only [fileDataToJson, fileDataFromJson, objectOr_without, getOpt_eq, getStrings_eq]
    generalize v.without fileDataKnown = extra at hnone
    simp only [fileDataKnown, List.forall_mem_cons] at hnone
    simp_all [fileDataMembers, Shape.written]
  rw [keeps_section_and_iff hv rfl hexempt hunknown hknown]
  apply and_congr_right'
  have hproperties : (fileDataToJson (fileDataFromJson v)).find? "DatasetProperties" =
      some (datasetPropertiesToJson (fileDataFromJson v).datasetProperties) := by
    simp [fileDataToJson]
  have hextension : ∀ x, v.find? "ExtensionProperties" = some x →
      (fileDataToJson (fileDataFromJson v)).find? "ExtensionProperties" = some (objectOr x) := by
    intro x hx
    simp [fileDataToJson, fileDataFromJson, hx]
  simp only [List.forall_mem_cons, List.not_mem_nil, false_imp_iff, implies_true, and_true,
    hproperties]
  apply and_congr_right'
  apply forall₂_congr
  intro x hx
  rw [hextension x hx]

/-! ## Requests -/

/-- The paths of the members that the service sets by itself. -/
def serverOwned : List (List String) :=
  [["id"], ["version"], ["data", "Checksum"], ["data", "ChecksumAlgorithm"],
    ["data", "DatasetProperties", "FileSourceInfo", "Checksum"],
    ["data", "DatasetProperties", "FileSourceInfo", "ChecksumAlgorithm"]]

/-- The known members of a request have values that their readers keep, unless they are blank or
the service sets them. -/
structure WellTyped (v : Value) : Prop where
  acl : ∀ x, v.at? ["acl"] = some x → Typed [] aclMembers x
  legal : ∀ x, v.at? ["legal"] = some x → Typed [] legalMembers x
  data : ∀ x, v.at? ["data"] = some x →
    Typed [["Checksum"], ["ChecksumAlgorithm"]] fileDataMembers x
  extensionProperties : ∀ x, v.at? ["data", "ExtensionProperties"] = some x →
    x.isBlank = true ∨ x.isObject = true
  fileSourceInfo : ∀ x, v.at? ["data", "DatasetProperties", "FileSourceInfo"] = some x →
    Typed [["Checksum"], ["ChecksumAlgorithm"]] fileSourceInfoMembers x
  ancestry : ∀ x, v.at? ["ancestry"] = some x →
    x.isBlank = true ∨ x.isObject = true ∧ Typed [] ancestryMembers x
  tags : ∀ x, v.at? ["tags"] = some x →
    x.isBlank = true ∨ x.isObject = true ∧ x.isEmpty = false

end Sections

section Requests
variable {v : Value} {r : FileMetadataRecord} {exempt : List (List String)} {name : String} {x : Value}

/-- A section that is an object is kept as its members are. -/
theorem keepsMember_object_iff {y : Value} (hx : x.isObject = true) (hname : [name] ∉ exempt) :
    KeepsMember exempt name x (some y) ↔ Keeps (tails name exempt) x y := by
  simp [KeepsMember, isBlank_eq_false_of_isObject hx, hname]

theorem keepsMember_objectOr_iff (hname : [name] ∉ exempt) :
    KeepsMember exempt name x (some (objectOr x)) ↔ x.isBlank = true ∨ x.isObject = true := by
  have hexempt : [] ∉ tails name exempt := fun h => hname (mem_tails.mp h)
  simp only [KeepsMember, hname, false_or, Option.some.injEq, exists_eq_left']
  cases hobject : x.isObject with
  | true => simp [objectOr, hobject, keeps_refl]
  | false =>
    cases hblank : x.isBlank with
    | true => simp
    | false =>
      rw [keeps_of_not_isObject hobject hblank hexempt]
      simp only [Bool.false_eq_true, false_or, or_false, iff_false]
      intro hx
      rw [hx] at hobject
      cases (isObject_objectOr x).symm.trans hobject

/-- Only the paths of length one matter for the members of one level. -/
theorem typed_congr {exempt' : List (List String)} {members : List (String × Shape)}
    (h : ∀ m ∈ members, [m.1] ∈ exempt ↔ [m.1] ∈ exempt') :
    Typed exempt members v ↔ Typed exempt' members v := by
  apply forall₂_congr
  intro m hm
  rw [h m hm]

/-- What is found under the known names in the JSON form of a record. -/
theorem find?_toJson_known (h : Extra recordKnown r.extra) :
    (toJson r).find? "kind" = (if r.kind = "" then none else some (.string r.kind)) ∧
    (toJson r).find? "acl" = some (aclToJson r.acl) ∧
    (toJson r).find? "legal" = some (legalToJson r.legal) ∧
    (toJson r).find? "data" = some (fileDataToJson r.data) ∧
    (toJson r).find? "ancestry" = r.ancestry.map ancestryToJson ∧
    (toJson r).find? "meta" = (if r.meta.isNull = true then none else some r.meta) ∧
    (toJson r).find? "tags" =
      if r.tags.isObject = true ∧ r.tags.isEmpty = false then some r.tags else none := by
  have hnone : ∀ name ∈ recordKnown, r.extra.find? name = none := fun name => h.find?_eq_none
  have hrest := h.objectOr_eq
  simp only [recordKnown, List.forall_mem_cons] at hnone
  cases hancestry : r.ancestry with
  | none => simp_all [toJson]
  | some a => simp_all [toJson]

theorem find?_toJson_unknown (h : Extra recordKnown r.extra) (hname : name ∉ recordKnown) :
    (toJson r).find? name = r.extra.find? name := by
  have hrest := h.objectOr_eq
  simp only [recordKnown, List.mem_cons, List.not_mem_nil, or_false, not_or] at hname
  cases hancestry : r.ancestry with
  | none => simp [toJson, hancestry, hrest, hname]
  | some a => simp [toJson, hancestry, hrest, hname]

/-! ### The members of a request -/

theorem keepsMember_kind (h : (readText (some x)).getD "" ≠ "") :
    KeepsMember exempt name x (some (.string ((readText (some x)).getD ""))) := by
  cases x with
  | string s =>
    rw [getD_readText_string]
    exact .inr (.inr ⟨_, rfl, keeps_refl _ _⟩)
  | _ => exact absurd rfl h

theorem keepsMember_meta : KeepsMember exempt name x (if x.isNull = true then none else some x) := by
  cases x with
  | null => exact .inl rfl
  | _ => exact .inr (.inr ⟨_, rfl, keeps_refl _ _⟩)

theorem keepsMember_ancestry_iff (hname : [name] ∉ exempt) (hx : v.find? "ancestry" = some x) :
    KeepsMember exempt name x ((ancestryFrom v).map ancestryToJson) ↔
      x.isBlank = true ∨ x.isObject = true ∧ Typed (tails name exempt) ancestryMembers x := by
  have hexempt : [] ∉ tails name exempt := fun h => hname (mem_tails.mp h)
  cases x with
  | object ms =>
    have hfrom : ancestryFrom v = some (ancestryFromJson (.object ms)) := by
      simp [ancestryFrom, hx]
    rw [hfrom, Option.map_some, keepsMember_object_iff rfl hname, keeps_ancestry_iff rfl hexempt]
    simp [isBlank, isObject]
  | _ => simp [KeepsMember, ancestryFrom, hx, hname, isObject]

theorem keepsMember_tags_iff (hname : [name] ∉ exempt) (hx : v.find? "tags" = some x) :
    KeepsMember exempt name x
        (if (tagsFrom v).isObject = true ∧ (tagsFrom v).isEmpty = false then some (tagsFrom v)
          else none) ↔
      x.isBlank = true ∨ x.isObject = true ∧ x.isEmpty = false := by
  cases x with
  | object ms =>
    have hfrom : tagsFrom v = .object ms := by simp [tagsFrom, hx]
    rw [hfrom]
    cases hempty : (Value.object ms).isEmpty <;>
      simp [KeepsMember, isBlank, hname, keeps_refl, isObject]
  | _ => simp [KeepsMember, tagsFrom, hx, hname, isObject, isEmpty]

/-- A file source is read from two sections. -/
theorem sections_of_fileSource
    (h : (fileDataFromJson v).datasetProperties.fileSourceInfo.fileSource ≠ "") :
    ∃ properties info, v.find? "DatasetProperties" = some (.object properties) ∧
      (Value.object properties).find? "FileSourceInfo" = some (.object info) := by
  unfold fileDataFromJson at h
  dsimp only at h
  split at h
  · rename_i properties hproperties
    unfold datasetPropertiesFromJson at h
    dsimp only at h
    split at h
    · rename_i info hinfo
      exact ⟨properties, info, hproperties, hinfo⟩
    · exact absurd rfl h
  · exact absurd rfl h

theorem keepsMember_data_iff (hx : x.isObject = true)
    (hsource : (fileDataFromJson x).datasetProperties.fileSourceInfo.fileSource ≠ "") :
    KeepsMember serverOwned "data" x (some (fileDataToJson (fileDataFromJson x))) ↔
      Typed [["Checksum"], ["ChecksumAlgorithm"]] fileDataMembers x ∧
      (∀ y, x.at? ["DatasetProperties", "FileSourceInfo"] = some y →
        Typed [["Checksum"], ["ChecksumAlgorithm"]] fileSourceInfoMembers y) ∧
      ∀ y, x.find? "ExtensionProperties" = some y → y.isBlank = true ∨ y.isObject = true := by
  obtain ⟨properties, info, hproperties, hinfo⟩ := sections_of_fileSource hsource
  have hread : (fileDataFromJson x).datasetProperties =
      datasetPropertiesFromJson (.object properties) := by
    simp [fileDataFromJson, hproperties]
  have hwritten : fileSourceInfoToJson (datasetPropertiesFromJson (.object properties)).fileSourceInfo =
      fileSourceInfoToJson (fileSourceInfoFromJson (.object info)) := by
    simp only [datasetPropertiesFromJson, hinfo]
    rfl
  rw [keepsMember_object_iff hx (by decide), keeps_fileData_iff hx (by decide)]
  apply and_congr
  · apply typed_congr
    decide
  apply and_congr
  · simp only [at?_cons, at?_nil, hproperties, hinfo, hread, Option.some.injEq, forall_eq',
      Option.bind_some]
    rw [keepsMember_object_iff rfl (by decide), keeps_datasetProperties_iff rfl (by decide)]
    simp only [hinfo, Option.some.injEq, forall_eq', hwritten]
    rw [keepsMember_object_iff rfl (by decide), keeps_fileSourceInfo_iff rfl (by decide)]
    apply typed_congr
    decide
  · apply forall₂_congr
    intro y hy
    exact keepsMember_objectOr_iff (by decide)

/-- What is found in the JSON form of a parsed record. -/
theorem find?_toJson_recordOf (acl legal data : Value) :
    let w := toJson (recordOf v acl legal data)
    w.find? "acl" = some (aclToJson (aclFromJson acl)) ∧
    w.find? "legal" = some (legalToJson (legalFromJson legal)) ∧
    w.find? "data" = some (fileDataToJson (fileDataFromJson data)) ∧
    w.find? "ancestry" = (ancestryFrom v).map ancestryToJson ∧
    w.find? "tags" =
      (if (tagsFrom v).isObject = true ∧ (tagsFrom v).isEmpty = false then some (tagsFrom v)
        else none) ∧
    ∀ name ∉ recordKnown, w.find? name = v.find? name := by
  have hextra := extra_without v recordKnown
  obtain ⟨-, hacl, hlegal, hdata, hancestry, -, htags⟩ :=
    find?_toJson_known (r := recordOf v acl legal data) hextra
  refine ⟨hacl, hlegal, hdata, hancestry, htags, ?_⟩
  intro name hname
  rw [find?_toJson_unknown hextra hname]
  simp [recordOf, hname]

theorem keepsMember_kind_of_valid (acl legal data : Value)
    (hkind : (recordOf v acl legal data).kind ≠ "") (hx : v.find? "kind" = some x) :
    KeepsMember serverOwned "kind" x ((toJson (recordOf v acl legal data)).find? "kind") := by
  have hread : (recordOf v acl legal data).kind = (readText (some x)).getD "" := by
    simp [recordOf, getOpt_eq, hx]
  rw [(find?_toJson_known (extra_without v recordKnown)).1, if_neg hkind, hread]
  apply keepsMember_kind
  rwa [← hread]

theorem keepsMember_meta_of_parsed (acl legal data : Value) (hx : v.find? "meta" = some x) :
    KeepsMember serverOwned "meta" x ((toJson (recordOf v acl legal data)).find? "meta") := by
  have hread : (recordOf v acl legal data).meta = x := by simp [recordOf, hx]
  obtain ⟨-, -, -, -, -, hmeta, -⟩ :=
    find?_toJson_known (r := recordOf v acl legal data) (extra_without v recordKnown)
  rw [hmeta, hread]
  exact keepsMember_meta

/-- The JSON form of an accepted request keeps its members exactly if they have the types that
their readers expect. -/
theorem keeps_toJson_iff (hparse : parseFileMetadataRecord v = .ok r)
    (hvalid : validateMetadataRecord r = []) :
    Keeps serverOwned v (toJson r) ↔ WellTyped v := by
  have hkind := kind_ne_empty_of_valid hvalid
  have hsource := fileSource_ne_empty_of_valid hvalid
  obtain ⟨-, acl, legal, data, hacl, hlegal, hdata, -, -, rfl⟩ := parse_ok_iff.mp hparse
  obtain ⟨ha, hl, hd, hancestry, htags, hunknown⟩ :=
    find?_toJson_recordOf (v := v) (.object acl) (.object legal) (.object data)
  rw [keeps_known_iff (isObject_of_find? hacl) (isObject_of_find? hd) (by decide) hunknown]
  have hacl' : KeepsMember serverOwned "acl" (.object acl)
      (some (aclToJson (aclFromJson (.object acl)))) ↔ Typed [] aclMembers (.object acl) := by
    rw [keepsMember_object_iff rfl (by decide), keeps_acl_iff rfl (by decide)]
    exact typed_congr (by decide)
  have hlegal' : KeepsMember serverOwned "legal" (.object legal)
      (some (legalToJson (legalFromJson (.object legal)))) ↔
        Typed [] legalMembers (.object legal) := by
    rw [keepsMember_object_iff rfl (by decide), keeps_legal_iff rfl (by decide)]
    exact typed_congr (by decide)
  have hdata' := keepsMember_data_iff (x := .object data) rfl hsource
  have hancestry' : ∀ x, v.find? "ancestry" = some x →
      (KeepsMember serverOwned "ancestry" x ((ancestryFrom v).map ancestryToJson) ↔
        x.isBlank = true ∨ x.isObject = true ∧ Typed [] ancestryMembers x) :=
    fun x => keepsMember_ancestry_iff (by decide)
  have htags' : ∀ x, v.find? "tags" = some x →
      (KeepsMember serverOwned "tags" x
          (if (tagsFrom v).isObject = true ∧ (tagsFrom v).isEmpty = false then some (tagsFrom v)
            else none) ↔
        x.isBlank = true ∨ x.isObject = true ∧ x.isEmpty = false) :=
    fun x => keepsMember_tags_iff (by decide)
  simp only [recordKnown, List.forall_mem_cons, List.not_mem_nil, ha, hl, hd, hancestry, htags]
  constructor
  · rintro ⟨-, -, -, hacl'', hlegal'', hdata'', hancestry'', -, htags'', -⟩
    obtain ⟨htyped, hinfo, hextension⟩ := hdata'.mp (hdata'' _ hdata)
    constructor
    · simpa [hacl] using hacl'.mp (hacl'' _ hacl)
    · simpa [hlegal] using hlegal'.mp (hlegal'' _ hlegal)
    · simpa [hdata] using htyped
    · simpa [hdata] using hextension
    · simpa [hdata] using hinfo
    · intro x hx
      have hfind : v.find? "ancestry" = some x := by simpa using hx
      exact (hancestry' x hfind).mp (hancestry'' x hfind)
    · intro x hx
      have hfind : v.find? "tags" = some x := by simpa using hx
      exact (htags' x hfind).mp (htags'' x hfind)
  · intro h
    have hserver : ∀ name, [name] ∈ serverOwned → ∀ x found, KeepsMember serverOwned name x found :=
      fun name hname x found => .inr (.inl hname)
    refine ⟨fun x _ => hserver "id" (by decide) x _, ?_, fun x _ => hserver "version" (by decide) x _,
      ?_, ?_, ?_, ?_, ?_, ?_, fun _ h => h.elim⟩
    · exact fun x => keepsMember_kind_of_valid _ _ _ hkind
    · rw [hacl]
      rintro x ⟨⟩
      exact hacl'.mpr (h.acl _ (by simp [hacl]))
    · rw [hlegal]
      rintro x ⟨⟩
      exact hlegal'.mpr (h.legal _ (by simp [hlegal]))
    · rw [hdata]
      rintro x ⟨⟩
      apply hdata'.mpr
      refine ⟨h.data _ (by simp [hdata]), ?_, ?_⟩
      · simpa [hdata] using h.fileSourceInfo
      · simpa [hdata] using h.extensionProperties
    · exact fun x hx => (hancestry' x hx).mpr (h.ancestry x (by simpa using hx))
    · exact fun x => keepsMember_meta_of_parsed _ _ _
    · exact fun x hx => (htags' x hx).mpr (h.tags x (by simpa using hx))

end Requests

/-! ## Sample requests -/

section Sample

/-- The record that a request is parsed to, if it is. -/
def requested (v : Value) : FileMetadataRecord :=
  match parseFileMetadataRecord v with
  | .ok r => r
  | .error _ => {}

def isAccepted (v : Value) : Bool :=
  (parseFileMetadataRecord v).isOk && decide (validateMetadataRecord (requested v) = [])

theorem requested_of_isAccepted {v : Value} (h : isAccepted v = true) :
    parseFileMetadataRecord v = .ok (requested v) ∧ validateMetadataRecord (requested v) = [] := by
  unfold isAccepted at h
  rw [Bool.and_eq_true, decide_eq_true_eq] at h
  obtain ⟨hok, hvalid⟩ := h
  refine ⟨?_, hvalid⟩
  unfold requested
  cases hparse : parseFileMetadataRecord v with
  | ok r => rfl
  | error e =>
    rw [hparse] at hok
    cases hok

/-- The sample record as a request, with a total size. -/
def sizedRequest (size : Value) : Value :=
  (toJson sampleRecord).set "data" ((fileDataToJson sampleRecord.data).set "TotalSize" size)

theorem sizedRequest_keeps :
    Keeps serverOwned (sizedRequest (.string "12")) (toJson (requested (sizedRequest (.string "12")))) ↔
      WellTyped (sizedRequest (.string "12")) :=
  have haccepted := requested_of_isAccepted
    (by decide +kernel : isAccepted (sizedRequest (.string "12")) = true)
  keeps_toJson_iff haccepted.1 haccepted.2

/-- A size that is a number is accepted and lost. -/
theorem numericSize_lost : isAccepted (sizedRequest (.integer 12)) = true ∧
    ¬Keeps serverOwned (sizedRequest (.integer 12)) (toJson (requested (sizedRequest (.integer 12)))) := by
  refine ⟨by decide +kernel, ?_⟩
  intro hkeeps
  have hsize : (sizedRequest (.integer 12)).at? ["data", "TotalSize"] = some (.integer 12) := rfl
  have hlost : ((toJson (requested (sizedRequest (.integer 12)))).at? ["data", "TotalSize"]).isNone =
      true := by
    decide +kernel
  rcases hkeeps _ _ hsize with hblank | ⟨e, he, hprefix⟩ | ⟨y, hy, -⟩
  · cases hblank
  · revert e
    decide
  · rw [hy] at hlost
    cases hlost

end Sample

end FileService.Domain
