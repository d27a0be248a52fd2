import FileService.Domain.RecordJson

/-!
# Records that can be read back

What a section writes, it reads back, if its texts are not empty, and its
further members have other names than the known ones.
-/
namespace FileService.Domain
open FileService.Common FileService.Common.Json

/-! ## Members -/

section Members
variable {obj extra x : Value} {field k name : String} {value : Option String} {known : List String}

/-- The member that an optional text becomes. -/
def textMember : Option String → Option Value
  | some s => if s = "" then none else some (.string s)
  | none => none

/-- The optional text that a member becomes. -/
def readText : Option Value → Option String
  | some (.string s) => if s = "" then none else some s
  | _ => none

/-- The texts that a member becomes. -/
def readTexts : Option Value → List String
  | some (.array items) => items.filterMap Value.asString?
  | _ => []

theorem readText_ne_empty (found : Option Value) : readText found ≠ some "" := by
  unfold readText
  split
  · split_ifs with hs
    · exact nofun
    · simpa using hs
  · exact nofun

theorem getOpt_eq : getOpt obj field = readText (obj.find? field) := rfl

theorem getStrings_eq : getStrings obj field = readTexts (obj.find? field) := rfl

@[simp] theorem find?_setOpt_of_ne (h : k ≠ field) :
    (setOpt obj field value).find? k = obj.find? k := by
  unfold setOpt
  split
  · split
    · rfl
    · rw [Value.find?_set, if_neg h]
  · rfl

@[simp] theorem find?_setOpt_self (h : obj.find? field = none) :
    (setOpt obj field value).find? field = textMember value := by
  cases value with
  | none => exact h
  | some s =>
    by_cases hs : s = ""
    · simp [setOpt, textMember, hs, h]
    · simp [setOpt, textMember, hs]

@[simp] theorem without_setOpt (h : field ∈ known) :
    (setOpt obj field value).without known = obj.without known := by
  unfold setOpt
  split
  · split
    · rfl
    · exact Value.without_set h
  · rfl

theorem readText_textMember (h : value ≠ some "") : readText (textMember value) = value := by
  cases value with
  | none => rfl
  | some s =>
    have hs : s ≠ "" := fun hs => h (by rw [hs])
    simp [textMember, readText, hs]

@[simp] theorem getD_readText_string (s : String) :
    (readText (some (.string s))).getD "" = s := by
  by_cases hs : s = ""
  · simp [readText, hs]
  · simp [readText, hs]

@[simp] theorem readTexts_none : readTexts none = [] := rfl

@[simp] theorem readTexts_strings (texts : List String) : readTexts (some (strings texts)) = texts := by
  simp [readTexts, strings, List.filterMap_map, Function.comp_def, Value.asString?]

/-- Further members beside the known ones. -/
def Extra (known : List String) (extra : Value) : Prop := extra.without known = extra

theorem Extra.find?_eq_none (h : Extra known extra) (hname : name ∈ known) :
    extra.find? name = none := by
  rw [← h, Value.find?_without, if_pos hname]

theorem Extra.objectOr_eq (h : Extra known extra) : objectOr extra = extra := by
  rw [← h]
  rfl

@[simp] theorem objectOr_without (v : Value) (known : List String) :
    objectOr (v.without known) = v.without known := rfl

theorem isObject_objectOr (x : Value) : (objectOr x).isObject = true := by
  unfold objectOr
  split_ifs with h
  · exact h
  · rfl

theorem extra_without (v : Value) (known : List String) : Extra known (v.without known) :=
  Value.without_without

end Members

/-! ## Sections -/

section Sections

theorem acl_roundTrip {acl : Acl} (h : Extra aclKnown acl.extra) :
    aclFromJson (aclToJson acl) = acl := by
  have hextra : (aclToJson acl).without aclKnown = acl.extra := by
    simpa [aclToJson, aclKnown, h.objectOr_eq, Extra] using h
  simp [aclFromJson, getStrings_eq, hextra]
  simp [aclToJson]

theorem legal_roundTrip {legal : Legal} (h : Extra legalKnown legal.extra) :
    legalFromJson (legalToJson legal) = legal := by
  have hextra : (legalToJson legal).without legalKnown = legal.extra := by
    simpa [legalToJson, legalKnown, h.objectOr_eq, Extra] using h
  have hstatus : (parseLegalStatus (legalStatusName legal.status)).getD .compliant =
      legal.status := by
    cases legal.status <;> rfl
  have hname : legalStatusName legal.status ≠ "" := by
    cases legal.status <;> decide
  simp only [legalFromJson, getStrings_eq, getOpt_eq, hextra]
  simp [legalToJson, readText, readStatus, hname, hstatus]

theorem ancestry_roundTrip {a : Ancestry} (h : Extra ancestryKnown a.extra)
    (hparent : a.parent ≠ some "") : ancestryFromJson (ancestryToJson a) = a := by
  have hnone : ∀ name ∈ ancestryKnown, a.extra.find? name = none := fun name => h.find?_eq_none
  obtain ⟨parent, parents, extra⟩ := a
  have hextra : (ancestryToJson ⟨parent, parents, extra⟩).without ancestryKnown = extra := by
    cases parent <;> cases parents <;>
      simpa [ancestryToJson, ancestryKnown, h.objectOr_eq, Extra] using h
  simp only [ancestryKnown, List.forall_mem_cons, List.not_mem_nil] at hnone
  simp only [ancestryFromJson, getStrings_eq, getOpt_eq, hextra]
  cases parent <;> cases parents <;>
    simp_all [ancestryToJson, h.objectOr_eq, readText]

def FileSourceInfo.texts (info : FileSourceInfo) : List (Option String) :=
  [info.preloadFilePath, info.preloadFileCreateUser, info.preloadFileCreateDate,
    info.preloadFileModifyUser, info.preloadFileModifyDate, info.name, info.fileSize,
    info.encodingFormatTypeId, info.checksum, info.checksumAlgorithm]

structure FileSourceInfo.Storable (info : FileSourceInfo) : Prop where
  present : info.present = true
  texts : ∀ text ∈ info.texts, text ≠ some ""
  extra : Extra fileSourceInfoKnown info.extra

theorem fileSourceInfo_roundTrip {info : FileSourceInfo} (h : info.Storable) :
    { fileSourceInfoFromJson (fileSourceInfoToJson info) with present := true } = info := by
  have hextra : (fileSourceInfoToJson info).without fileSourceInfoKnown = info.extra := by
    simpa [fileSourceInfoToJson, fileSourceInfoKnown, h.extra.objectOr_eq, Extra] using h.extra
  have hnone : ∀ name ∈ fileSourceInfoKnown, info.extra.find? name = none :=
    fun name => h.extra.find?_eq_none
  have htexts := h.texts
  simp only [fileSourceInfoKnown, List.forall_mem_cons, List.not_mem_nil, FileSourceInfo.texts] at hnone htexts
  obtain ⟨fileSource, present, _, _, _, _, _, _, _, _, _, _, extra⟩ := info
  simp only [fileSourceInfoFromJson, getOpt_eq, hextra]
  have hpresent := h.present
  simp_all [fileSourceInfoToJson, readText_textMember, h.extra.objectOr_eq]

structure DatasetProperties.Storable (ds : DatasetProperties) : Prop where
  present : ds.present = true
  info : ds.fileSourceInfo.Storable
  extra : Extra datasetPropertiesKnown ds.extra

theorem isObject_setOpt {obj : Value} {field : String} {value : Option String}
    (h : obj.isObject = true) : (setOpt obj field value).isObject = true := by
  unfold setOpt
  split
  · split
    · exact h
    · rfl
  · exact h

theorem isObject_fileSourceInfoToJson (info : FileSourceInfo) :
    (fileSourceInfoToJson info).isObject = true := by
  unfold fileSourceInfoToJson
  repeat apply isObject_setOpt
  rfl

theorem eq_object_of_isObject {v : Value} (h : v.isObject = true) : ∃ ms, v = .object ms := by
  cases v with
  | object ms => exact ⟨ms, rfl⟩
  | _ => cases h

theorem datasetProperties_roundTrip {ds : DatasetProperties} (h : ds.Storable) :
    datasetPropertiesFromJson (datasetPropertiesToJson ds) = ds := by
  have hextra : (datasetPropertiesToJson ds).without datasetPropertiesKnown = ds.extra := by
    simpa [datasetPropertiesToJson, datasetPropertiesKnown, h.extra.objectOr_eq, Extra]
      using h.extra
  have hinfo : (datasetPropertiesFromJson (datasetPropertiesToJson ds)).fileSourceInfo =
      ds.fileSourceInfo := by
    obtain ⟨ms, hms⟩ := eq_object_of_isObject (isObject_fileSourceInfoToJson ds.fileSourceInfo)
    have hfind : (datasetPropertiesToJson ds).find? "FileSourceInfo" = some (.object ms) := by
      simp [datasetPropertiesToJson, hms]
    have hround := fileSourceInfo_roundTrip h.info
    rw [hms] at hround
    simp only [datasetPropertiesFromJson, hfind]
    exact hround
  have hpresent := h.present
  obtain ⟨info, present, extra⟩ := ds
  cases hpresent
  simp only [datasetPropertiesFromJson] at hinfo ⊢
  rw [hinfo, hextra]

def FileData.texts (d : FileData) : List (Option String) :=
  [d.name, d.description, d.totalSize, d.encodingFormatTypeId, d.schemaFormatTypeId, d.endian,
    d.checksum, d.checksumAlgorithm, d.resourceHomeRegionId, d.resourceCurationStatus,
    d.resourceLifecycleStatus, d.resourceSecurityClassification, d.source, d.existenceKind]

structure FileData.Storable (d : FileData) : Prop where
  texts : ∀ text ∈ d.texts, text ≠ some ""
  datasetProperties : d.datasetProperties.Storable
  extensionProperties : d.extensionProperties.isObject = true
  extra : Extra fileDataKnown d.extra

theorem fileData_roundTrip {d : FileData} (h : d.Storable) :
    fileDataFromJson (fileDataToJson d) = d := by
  have hextra : (fileDataToJson d).without fileDataKnown = d.extra := by
    cases hregions : d.resourceHostRegionIds.isEmpty <;>
      simpa [fileDataToJson, fileDataKnown, h.extra.objectOr_eq, Extra, hregions] using h.extra
  have hproperties : (fileDataFromJson (fileDataToJson d)).datasetProperties =
      d.datasetProperties := by
    have hfind : (fileDataToJson d).find? "DatasetProperties" =
        some (datasetPropertiesToJson d.datasetProperties) := by
      simp [fileDataToJson]
    simp only [fileDataFromJson, hfind]
    exact datasetProperties_roundTrip h.datasetProperties
  have hnone : ∀ name ∈ fileDataKnown, d.extra.find? name = none :=
    fun name => h.extra.find?_eq_none
  have htexts := h.texts
  have hextension : objectOr d.extensionProperties = d.extensionProperties :=
    if_pos h.extensionProperties
  have hrest := h.extra.objectOr_eq
  simp only [fileDataKnown, List.forall_mem_cons, List.not_mem_nil, FileData.texts] at hnone htexts
  simp only [fileDataFromJson] at hproperties
  simp only [fileDataFromJson, getOpt_eq, getStrings_eq, hextra, hproperties]
  clear hextra hproperties h
  obtain ⟨_, _, _, _, _, _, _, _, _, regions, _, _, _, _, _, properties, extension, extra⟩ := d
  cases regions with
  | nil => simp_all [fileDataToJson, readText_textMember]
  | cons region regions => simp_all [fileDataToJson, readText_textMember]

end Sections

/-! ## Records -/

section Records
variable {r : FileMetadataRecord} {d : FileData}

/-- The enumerations of the data have a known value. -/
structure FileData.EnumsOk (d : FileData) : Prop where
  endian : ∀ e, d.endian = some e → e = "BIG" ∨ e = "LITTLE"
  headers : ∀ items, d.extra.find? "VectorHeaderMapping" = some (.array items) →
    items.forM checkScalarIndicator = .ok ()

/-- The records that survive their JSON form. -/
structure FileMetadataRecord.Storable (r : FileMetadataRecord) : Prop where
  kind : r.kind ≠ ""
  version : r.version < 2 ^ 63
  acl : Extra aclKnown r.acl.extra
  legal : Extra legalKnown r.legal.extra
  data : r.data.Storable
  enums : r.data.EnumsOk
  ancestry : ∀ a, r.ancestry = some a → Extra ancestryKnown a.extra ∧ a.parent ≠ some ""
  «meta» : r.meta.isNull = false
  tags : r.tags.isObject = true
  extra : Extra recordKnown r.extra

theorem checkEnums_fileDataToJson (h : d.Storable) (henums : d.EnumsOk) :
    checkEnums (fileDataToJson d) = .ok () := by
  have hnone : d.extra.find? "Endian" = none := h.extra.find?_eq_none (by decide)
  have hendian : (fileDataToJson d).find? "Endian" = textMember d.endian := by
    simp [fileDataToJson, h.extra.objectOr_eq, hnone]
  have hheaders : (fileDataToJson d).find? "VectorHeaderMapping" =
      d.extra.find? "VectorHeaderMapping" := by
    simp [fileDataToJson, h.extra.objectOr_eq]
  have hcheck : checkEndian (fileDataToJson d) = .ok () := by
    rw [checkEndian, hendian]
    cases hvalue : d.endian with
    | none => rfl
    | some e =>
      rcases henums.endian e hvalue with rfl | rfl <;> rfl
  rw [checkEnums, hcheck, hheaders]
  cases hfind : d.extra.find? "VectorHeaderMapping" with
  | none => rfl
  | some v =>
    cases v with
    | array items => exact henums.headers items hfind
    | _ => rfl

theorem find?_toJson_of_mem (h : r.Storable) :
    (toJson r).find? "id" = (if r.id = "" then none else some (.string r.id)) ∧
    (toJson r).find? "kind" = some (.string r.kind) ∧
    (toJson r).find? "version" = (if 0 < r.version then some (.integer r.version) else none) ∧
    (toJson r).find? "acl" = some (aclToJson r.acl) ∧
    (toJson r).find? "legal" = some (legalToJson r.legal) ∧
    (toJson r).find? "data" = some (fileDataToJson r.data) ∧
    (toJson r).find? "ancestry" = r.ancestry.map ancestryToJson ∧
    (toJson r).find? "meta" = some r.meta ∧
    (toJson r).find? "tags" = if r.tags.isEmpty = false then some r.tags else none := by
  have hnone : ∀ name ∈ recordKnown, r.extra.find? name = none :=
    fun name => h.extra.find?_eq_none
  have hkind := h.kind
  have hmeta := h.meta
  have htags := h.tags
  have hrest := h.extra.objectOr_eq
  simp only [recordKnown, List.forall_mem_cons, List.not_mem_nil] at hnone
  cases hancestry : r.ancestry with
  | none => simp_all [toJson]
  | some a => simp_all [toJson]

/-- What the parser asks of a value before it builds the record. -/
structure Parses (v : Value) (r : FileMetadataRecord) : Prop where
  kind : ∃ kind, v.find? "kind" = some kind
  sections : ∃ acl legal data, v.find? "acl" = some (.object acl) ∧
    v.find? "legal" = some (.object legal) ∧ v.find? "data" = some (.object data) ∧ data ≠ [] ∧
    checkEnums (.object data) = .ok () ∧ r = recordOf v (.object acl) (.object legal) (.object data)

section Parse
variable {v x : Value} {key : String}

theorem bind_eq_ok {α β : Type} {a : Result α} {f : α → Result β} {b : β} :
    (a >>= f) = .ok b ↔ ∃ y, a = .ok y ∧ f y = .ok b := by
  cases a <;> simp [bind, Except.bind]

theorem checkSection_ok {message : String} {emptyObjectIsEmpty : Bool} :
    checkSection v (key, message, emptyObjectIsEmpty) = .ok () ↔
      ∃ x, v.find? key = some x ∧ (emptyObjectIsEmpty && x.isObject && x.isEmpty) = false := by
  cases hfind : v.find? key with
  | none => simp [checkSection, hfind]
  | some x =>
    have hcheck : checkSection v (key, message, emptyObjectIsEmpty) =
        if emptyObjectIsEmpty && x.isObject && x.isEmpty then .error (err .invalidArgument message)
        else .ok () := by
      simp only [checkSection, hfind]
    rw [hcheck]
    simp only [Option.some.injEq, exists_eq_left']
    cases emptyObjectIsEmpty && x.isObject && x.isEmpty <;> simp

theorem sectionOf_ok (h : v.find? key = some x) {y : Value} :
    sectionOf v key = .ok y ↔ ∃ ms, x = .object ms ∧ y = .object ms := by
  unfold sectionOf
  rw [h]
  cases x <;> simp [eq_comm]

theorem parse_ok_iff : parseFileMetadataRecord v = .ok r ↔ Parses v r := by
  have hsections : requiredSections.forM (checkSection v) = .ok () ↔
      (∃ x, v.find? "kind" = some x) ∧ (∃ x, v.find? "acl" = some x) ∧
      (∃ x, v.find? "legal" = some x) ∧
      ∃ x, v.find? "data" = some x ∧ (x.isObject && x.isEmpty) = false := by
    have hunit : ∀ s, (∃ y, checkSection v s = .ok y) ↔ checkSection v s = .ok () :=
      fun _ => ⟨fun ⟨(), h⟩ => h, fun h => ⟨(), h⟩⟩
    simp [requiredSections, bind_eq_ok, hunit, checkSection_ok]
  unfold parseFileMetadataRecord
  cases hobject : v.isObject with
  | false =>
    simp only [Bool.not_false, if_true]
    constructor
    · intro h
      cases h
    · rintro ⟨⟨kind, hkind⟩, -⟩
      rw [Value.isObject_of_find? hkind] at hobject
      cases hobject
  | true =>
    simp only [Bool.not_true, Bool.false_eq_true, if_false, bind_eq_ok]
    constructor
    · rintro ⟨⟨⟩, hrequired, acl, hacl, legal, hlegal, data, hdata, ⟨⟩, henums, hr⟩
      obtain ⟨hkind, ⟨a, ha⟩, ⟨l, hl⟩, d, hd, hempty⟩ := hsections.mp hrequired
      obtain ⟨a, rfl, rfl⟩ := (sectionOf_ok ha).mp hacl
      obtain ⟨l, rfl, rfl⟩ := (sectionOf_ok hl).mp hlegal
      obtain ⟨d, rfl, rfl⟩ := (sectionOf_ok hd).mp hdata
      have hne : d ≠ [] := by
        rintro rfl
        cases hempty
      exact ⟨hkind, a, l, d, ha, hl, hd, hne, henums, (Except.ok.inj hr).symm⟩
    · rintro ⟨hkind, a, l, d, ha, hl, hd, hne, henums, rfl⟩
      have hempty : (Value.object d).isEmpty = false := by
        simpa [Value.isEmpty] using hne
      exact ⟨(), hsections.mpr ⟨hkind, ⟨_, ha⟩, ⟨_, hl⟩, _, hd, by simp [hempty]⟩,
        _, (sectionOf_ok ha).mpr ⟨a, rfl, rfl⟩, _, (sectionOf_ok hl).mpr ⟨l, rfl, rfl⟩,
        _, (sectionOf_ok hd).mpr ⟨d, rfl, rfl⟩, (), henums, rfl⟩

end Parse

theorem isObject_aclToJson (acl : Acl) : (aclToJson acl).isObject = true := rfl

theorem isObject_legalToJson (legal : Legal) : (legalToJson legal).isObject = true := rfl

theorem isObject_ancestryToJson {a : Ancestry} (h : Extra ancestryKnown a.extra) :
    (ancestryToJson a).isObject = true := by
  have hextra : (objectOr a.extra).isObject = true := by
    rw [h.objectOr_eq, ← h]
    rfl
  unfold ancestryToJson
  cases a.parent <;> cases a.parents <;> first | exact hextra | rfl

theorem isObject_fileDataToJson (d : FileData) : (fileDataToJson d).isObject = true := rfl

theorem without_toJson (h : r.Storable) : (toJson r).without recordKnown = r.extra := by
  have hextra := h.extra
  have hrest := h.extra.objectOr_eq
  cases hancestry : r.ancestry with
  | none => simp_all [toJson, recordKnown, Extra]
  | some a => simp_all [toJson, recordKnown, Extra]

theorem ancestryFrom_toJson (h : r.Storable) : ancestryFrom (toJson r) = r.ancestry := by
  obtain ⟨-, -, -, -, -, -, hfind, -⟩ := find?_toJson_of_mem h
  rw [ancestryFrom, hfind]
  cases hancestry : r.ancestry with
  | none => rfl
  | some a =>
    obtain ⟨hextra, hparent⟩ := h.ancestry a hancestry
    obtain ⟨ms, hms⟩ := eq_object_of_isObject (isObject_ancestryToJson hextra)
    have hround := ancestry_roundTrip hextra hparent
    rw [hms] at hround
    simp only [Option.map_some, hms, hround]

theorem recordOf_toJson (h : r.Storable) :
    recordOf (toJson r) (aclToJson r.acl) (legalToJson r.legal) (fileDataToJson r.data) =
      { r with version := if 0 < r.version then r.version else 0 } := by
  obtain ⟨hid, hkind, hversion, -, -, -, -, hmeta, htags⟩ := find?_toJson_of_mem h
  have hrid : (getOpt (toJson r) "id").getD "" = r.id := by
    rw [getOpt_eq, hid]
    split_ifs with hempty
    · exact hempty.symm
    · exact getD_readText_string r.id
  have hrkind : (getOpt (toJson r) "kind").getD "" = r.kind := by
    rw [getOpt_eq, hkind]
    exact getD_readText_string r.kind
  have hrversion : versionFrom (toJson r) = if 0 < r.version then r.version else 0 := by
    rw [versionFrom, hversion]
    split_ifs with hpos
    · exact toInt64_eq_self ⟨by omega, h.version⟩
    · rfl
  have hrtags : tagsFrom (toJson r) = r.tags := by
    obtain ⟨ms, hms⟩ := eq_object_of_isObject h.tags
    rw [tagsFrom, htags, hms]
    cases ms <;> rfl
  simp only [recordOf, hrid, hrkind, hrversion, hrtags, hmeta, acl_roundTrip h.acl,
    legal_roundTrip h.legal, fileData_roundTrip h.data, ancestryFrom_toJson h, without_toJson h,
    Option.getD_some]

theorem parse_toJson (h : r.Storable) : parseFileMetadataRecord (toJson r) =
    .ok { r with version := if 0 < r.version then r.version else 0 } := by
  obtain ⟨-, hkind, -, hacl, hlegal, hdata, -⟩ := find?_toJson_of_mem h
  obtain ⟨a, ha⟩ := eq_object_of_isObject (isObject_aclToJson r.acl)
  obtain ⟨l, hl⟩ := eq_object_of_isObject (isObject_legalToJson r.legal)
  obtain ⟨d, hd⟩ := eq_object_of_isObject (isObject_fileDataToJson r.data)
  have hnonempty : d ≠ [] := by
    rintro rfl
    have hproperties : (fileDataToJson r.data).find? "DatasetProperties" =
        some (datasetPropertiesToJson r.data.datasetProperties) := by
      simp [fileDataToJson]
    rw [hd] at hproperties
    cases hproperties
  have hrecord := recordOf_toJson h
  rw [ha] at hacl
  rw [hl] at hlegal
  rw [hd] at hdata
  rw [ha, hl, hd] at hrecord
  have henums := checkEnums_fileDataToJson h.data h.enums
  rw [hd] at henums
  exact parse_ok_iff.mpr ⟨⟨_, hkind⟩, a, l, d, hacl, hlegal, hdata, hnonempty, henums, hrecord.symm⟩

end Records

end FileService.Domain
