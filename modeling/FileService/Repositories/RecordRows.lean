import FileService.App.CreateFileMetadata
import FileService.Domain.RecordIngest

/-!
# Records that are read back

A request is parsed and validated before its record is stored. The record that
is read back is the one that was stored, unless one of the two open members that
the writer replaces was given a value of another type.
-/
namespace FileService.Repositories
open FileService.Common FileService.Common.Json FileService.Domain FileService.App

/-! ## Records from requests -/

section Requests
variable {v : Value} {r : FileMetadataRecord} {field : String}

theorem getOpt_ne_empty (obj : Value) (field : String) : getOpt obj field ≠ some "" :=
  readText_ne_empty (obj.find? field)

theorem storable_fileSourceInfoFromJson (v : Value) :
    { fileSourceInfoFromJson v with present := true }.Storable where
  present := rfl
  texts := by
    simp [FileSourceInfo.texts, fileSourceInfoFromJson, getOpt_ne_empty]
  extra := extra_without v fileSourceInfoKnown

/-- A section that names a file source is there, and its own section too. -/
theorem storable_datasetPropertiesFromJson
    (h : (fileDataFromJson v).datasetProperties.fileSourceInfo.fileSource ≠ "") :
    (fileDataFromJson v).datasetProperties.Storable := by
  unfold fileDataFromJson at h ⊢
  dsimp only at h ⊢
  split at h
  · rename_i ms hproperties
    refine ⟨rfl, ?_, extra_without _ datasetPropertiesKnown⟩
    unfold datasetPropertiesFromJson at h ⊢
    dsimp only at h ⊢
    split at h
    · exact storable_fileSourceInfoFromJson _
    · exact absurd rfl h
  · exact absurd rfl h

theorem storable_fileDataFromJson
    (hsource : (fileDataFromJson v).datasetProperties.fileSourceInfo.fileSource ≠ "")
    (hextension : (fileDataFromJson v).extensionProperties.isObject = true) :
    (fileDataFromJson v).Storable where
  texts := by
    simp [FileData.texts, fileDataFromJson, getOpt_ne_empty]
  datasetProperties := storable_datasetPropertiesFromJson hsource
  extensionProperties := hextension
  extra := extra_without v fileDataKnown

theorem enumsOk_of_checkEnums (h : checkEnums v = .ok ()) : (fileDataFromJson v).EnumsOk := by
  obtain ⟨⟨⟩, hendian, hheaders⟩ := bind_eq_ok.mp h
  constructor
  · intro e he
    unfold checkEndian at hendian
    have hread : readText (v.find? "Endian") = some e := he
    split at hendian
    · rename_i value hvalue
      rw [hvalue, readText] at hread
      split_ifs at hread hendian with hempty hbad
      cases hread
      by_contra hne
      rw [not_or] at hne
      exact hbad hne
    · rename_i hother
      cases hvalue : v.find? "Endian" with
      | none =>
        rw [hvalue] at hread
        cases hread
      | some x =>
        rw [hvalue] at hread
        cases x with
        | string s => exact absurd hvalue (hother s)
        | _ => cases hread
  · intro items hitems
    have hfind : v.find? "VectorHeaderMapping" = some (.array items) := by
      simpa [fileDataFromJson, fileDataKnown] using hitems
    rw [hfind] at hheaders
    exact hheaders

theorem ancestryFrom_clean {a : Ancestry} (h : ancestryFrom v = some a) :
    Extra ancestryKnown a.extra ∧ a.parent ≠ some "" := by
  unfold ancestryFrom at h
  split at h
  · cases h
    exact ⟨extra_without _ ancestryKnown, getOpt_ne_empty _ _⟩
  · cases h

theorem isObject_tagsFrom (v : Value) : (tagsFrom v).isObject = true := by
  unfold tagsFrom
  split <;> rfl

theorem versionFrom_lt (v : Value) : versionFrom v < 2 ^ 63 := by
  unfold versionFrom
  split
  · exact Int.bmod_lt (by decide)
  · decide

/-- The open members that a record keeps only if they have the right type. -/
structure OpenMembersKept (v : Value) : Prop where
  extensionProperties : ∀ x, v.at? ["data", "ExtensionProperties"] = some x → x.isObject = true
  «meta» : v.find? "meta" ≠ some .null

theorem storable_of_parse (hparse : parseFileMetadataRecord v = .ok r)
    (hvalid : validateMetadataRecord r = []) (hkept : OpenMembersKept v) : r.Storable := by
  have hkind := kind_ne_empty_of_valid hvalid
  have hsource := fileSource_ne_empty_of_valid hvalid
  obtain ⟨-, acl, legal, data, hacl, hlegal, hdata, -, henums, rfl⟩ := parse_ok_iff.mp hparse
  have hextension : (fileDataFromJson (.object data)).extensionProperties.isObject = true := by
    simp only [fileDataFromJson]
    cases hfind : (Value.object data).find? "ExtensionProperties" with
    | none => rfl
    | some x => exact hkept.extensionProperties x (by simp [hdata, hfind])
  have hmeta : ((v.find? "meta").getD (.array [])).isNull = false := by
    have hne := hkept.meta
    cases hfind : v.find? "meta" with
    | none => rfl
    | some x =>
      cases x with
      | null => exact absurd hfind hne
      | _ => rfl
  exact {
    kind := hkind
    version := versionFrom_lt v
    acl := extra_without _ aclKnown
    legal := extra_without _ legalKnown
    data := storable_fileDataFromJson hsource hextension
    enums := enumsOk_of_checkEnums henums
    ancestry := fun _ => ancestryFrom_clean
    «meta» := hmeta
    tags := isObject_tagsFrom v
    extra := extra_without v recordKnown }

end Requests

/-! ## Reading back -/

section Restored
variable {v : Value} {r r' : FileMetadataRecord}

/-- `RowToRecord`: the version of a row is that of its column. -/
def rowToRecord (parseObject : String → Result Value) (version : Int) (data : String) :
    Result FileMetadataRecord := do
  let value ← parseObject data
  let record ← parseFileMetadataRecord value
  return { record with version }

/-- The record is read again from its JSON form, with its version where that is positive, and
so from its row. -/
structure Restored (r : FileMetadataRecord) : Prop where
  parsed : ∃ r', parseFileMetadataRecord (toJson r) = .ok r' ∧ { r' with version := r.version } = r ∧
    (0 < r.version → r'.version = r.version)
  row : ∀ (dump : Value → String) (parseObject : String → Result Value),
    parseObject (dump (toJson r)) = .ok (toJson r) →
      rowToRecord parseObject r.version (dump (toJson r)) = .ok r

theorem restored_of_storable (h : r.Storable) : Restored r := by
  have hparsed := parse_toJson h
  constructor
  · refine ⟨_, hparsed, rfl, ?_⟩
    intro hpos
    exact if_pos hpos
  · intro dump parseObject hcodec
    simp only [rowToRecord, hcodec, hparsed, bind, Except.bind, pure, Except.pure]

theorem find?_toJson_data (r : FileMetadataRecord) :
    (toJson r).find? "data" = some (fileDataToJson r.data) := by
  cases hancestry : r.ancestry <;> simp [toJson, hancestry]

theorem find?_toJson_meta (h : r.extra.find? "meta" = none) (hobject : r.extra.isObject = true) :
    (toJson r).find? "meta" = if r.meta.isNull = true then none else some r.meta := by
  have hextra : objectOr r.extra = r.extra := if_pos hobject
  cases hancestry : r.ancestry <;> simp [toJson, hancestry, hextra, h]

theorem find?_fileDataToJson_extension (d : FileData) :
    (fileDataToJson d).find? "ExtensionProperties" = some (objectOr d.extensionProperties) := by
  simp [fileDataToJson]

/-- A record that was read from its own JSON form has open members of the right type. -/
theorem openMembersKept_of_restored (hparse : parseFileMetadataRecord v = .ok r)
    (h : Restored r) : OpenMembersKept v := by
  obtain ⟨r', hparse', hr, -⟩ := h.parsed
  have hdata' := congrArg FileMetadataRecord.data hr
  have hmeta' := congrArg FileMetadataRecord.meta hr
  dsimp only at hdata' hmeta'
  obtain ⟨-, a, l, d, -, -, hd, -, -, hrecord'⟩ := parse_ok_iff.mp hparse'
  obtain ⟨-, acl, legal, data, -, -, hdata, -, -, hrecord⟩ := parse_ok_iff.mp hparse
  have hextra : r.extra = v.without recordKnown := by rw [hrecord, recordOf]
  constructor
  · intro x hx
    have hfind : (Value.object data).find? "ExtensionProperties" = some x := by
      simpa [hdata] using hx
    have hread : r.data.extensionProperties = x := by
      rw [hrecord, recordOf, fileDataFromJson, hfind, Option.getD_some]
    rw [find?_toJson_data] at hd
    have hwritten : r'.data.extensionProperties = objectOr r.data.extensionProperties := by
      rw [hrecord', recordOf, fileDataFromJson, ← Option.some.inj hd,
        find?_fileDataToJson_extension, Option.getD_some]
    rw [← hread, ← hdata', hwritten]
    exact isObject_objectOr _
  · intro hnull
    have hread : r.meta = .null := by
      rw [hrecord, recordOf, hnull, Option.getD_some]
    have hfind : (toJson r).find? "meta" = none := by
      rw [find?_toJson_meta, hread]
      · rfl
      · rw [hextra, Value.find?_without, if_pos (by decide)]
      · rw [hextra, Value.isObject_without]
    have hwritten : r'.meta = .array [] := by
      rw [hrecord', recordOf, hfind, Option.getD_none]
    rw [hread, hwritten] at hmeta'
    cases hmeta'

/-- The record of a valid request is restored exactly if its open members have the right type. -/
theorem restored_iff (hparse : parseFileMetadataRecord v = .ok r)
    (hvalid : validateMetadataRecord r = []) : Restored r ↔ OpenMembersKept v :=
  ⟨openMembersKept_of_restored hparse, fun h => restored_of_storable (storable_of_parse hparse hvalid h)⟩

/-- A creation stores the record of its request under an identifier of its own, with checksums of
its own. -/
theorem storable_newRecord {caller : CallerContext} {uuid : String} (h : r.Storable) :
    (newRecord caller r uuid).Storable :=
  { h with version := (by decide : (1 : Int) < 2 ^ 63) }

theorem storable_withChecksum {checksum algorithm : String} (h : r.Storable) :
    (CreateJob.withChecksum r checksum algorithm).Storable := by
  unfold CreateJob.withChecksum
  by_cases hchecksum : checksum = ""
  · rwa [if_pos hchecksum]
  have halgorithm : (if algorithm = "" then "SHA256" else algorithm) ≠ "" := by
    split_ifs with hempty
    · decide
    · exact hempty
  have hinfo := h.data.datasetProperties.info.texts
  have htexts := h.data.texts
  simp only [FileSourceInfo.texts, FileData.texts, List.forall_mem_cons] at hinfo htexts
  rw [if_neg hchecksum]
  exact { h with
    data :=
      { h.data with
        texts := by simp_all [FileData.texts]
        datasetProperties :=
          { h.data.datasetProperties with
            info :=
              { h.data.datasetProperties.info with
                texts := by simp_all [FileSourceInfo.texts] } } }
    enums := ⟨h.enums.endian, h.enums.headers⟩ }

end Restored

/-! ## Sample requests -/

section Sample

/-- The sample record as a request, with two of its open members to choose. -/
def sampleRequest (extension metaValue : Value) : Value :=
  ((toJson sampleRecord).set "data"
    ((fileDataToJson sampleRecord.data).set "ExtensionProperties" extension)).set "meta" metaValue

/-- An ordinary request. -/
theorem sampleRequest_restored :
    Restored (requested (sampleRequest (.object []) (.array []))) ↔
      OpenMembersKept (sampleRequest (.object []) (.array [])) :=
  have haccepted := requested_of_isAccepted
    (by decide +kernel : isAccepted (sampleRequest (.object []) (.array [])) = true)
  restored_iff haccepted.1 haccepted.2

/-- A text for `ExtensionProperties`, and `null` for `meta`. -/
theorem openMembers_lost :
    (isAccepted (sampleRequest (.string "x") (.array [])) = true ∧
      ¬Restored (requested (sampleRequest (.string "x") (.array [])))) ∧
    (isAccepted (sampleRequest (.object []) .null) = true ∧
      ¬Restored (requested (sampleRequest (.object []) .null))) := by
  have hextension : isAccepted (sampleRequest (.string "x") (.array [])) = true := by
    decide +kernel
  have hnull : isAccepted (sampleRequest (.object []) .null) = true := by
    decide +kernel
  refine ⟨⟨hextension, ?_⟩, hnull, ?_⟩
  · intro hrestored
    have hkept := openMembersKept_of_restored (requested_of_isAccepted hextension).1 hrestored
    have hobject := hkept.extensionProperties (.string "x") (by simp [sampleRequest])
    cases hobject
  · intro hrestored
    have hkept := openMembersKept_of_restored (requested_of_isAccepted hnull).1 hrestored
    exact hkept.meta (by simp [sampleRequest])

end Sample

end FileService.Repositories
