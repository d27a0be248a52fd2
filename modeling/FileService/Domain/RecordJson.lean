import FileService.Common.Members
import FileService.Domain.FileMetadata

/-!
# Records as JSON

Every section of a record splits its members into the known ones and the rest,
which it keeps as it is.
-/
namespace FileService.Domain
open FileService.Common FileService.Common.Json

/-! ## Readers and writers of members -/

/-- An empty text is not written. -/
def setOpt (obj : Value) (field : String) (value : Option String) : Value :=
  match value with
  | some s => if s = "" then obj else obj.set field (.string s)
  | none => obj

/-- A text, unless it is empty or of another type. -/
def getOpt (obj : Value) (field : String) : Option String :=
  match obj.find? field with
  | some (.string s) => if s = "" then none else some s
  | _ => none

/-- The texts of an array; all other items are passed over. -/
def getStrings (obj : Value) (field : String) : List String :=
  match obj.find? field with
  | some (.array items) => items.filterMap Value.asString?
  | _ => []

def strings (texts : List String) : Value := .array (texts.map .string)

/-- `out = extra.is_object() ? extra : object()` -/
def objectOr (extra : Value) : Value := if extra.isObject then extra else .object []

/-! ## Sections -/

def aclKnown : List String := ["viewers", "owners"]

def aclToJson (acl : Acl) : Value :=
  ((objectOr acl.extra).set "viewers" (strings acl.viewers)).set "owners" (strings acl.owners)

def aclFromJson (v : Value) : Acl where
  viewers := getStrings v "viewers"
  owners := getStrings v "owners"
  extra := v.without aclKnown

def legalStatusName : LegalStatus → String
  | .compliant => "compliant"
  | .incompliant => "incompliant"

def parseLegalStatus (text : String) : Option LegalStatus :=
  if text = "compliant" then some .compliant
  else if text = "incompliant" then some .incompliant
  else none

/-- An unknown status counts as the default one. -/
def readStatus : Option String → LegalStatus
  | some s => (parseLegalStatus s).getD .compliant
  | none => .compliant

def legalKnown : List String := ["legaltags", "otherRelevantDataCountries", "status"]

def legalToJson (legal : Legal) : Value :=
  (((objectOr legal.extra).set "legaltags" (strings legal.legaltags)).set
    "otherRelevantDataCountries" (strings legal.otherRelevantDataCountries)).set
    "status" (.string (legalStatusName legal.status))

def legalFromJson (v : Value) : Legal where
  legaltags := getStrings v "legaltags"
  otherRelevantDataCountries := getStrings v "otherRelevantDataCountries"
  status := readStatus (getOpt v "status")
  extra := v.without legalKnown

def ancestryKnown : List String := ["parent", "parents"]

def ancestryToJson (a : Ancestry) : Value :=
  let out := objectOr a.extra
  let out := match a.parent with
    | some parent => out.set "parent" (.string parent)
    | none => out
  if a.parents.isEmpty then out else out.set "parents" (strings a.parents)

def ancestryFromJson (v : Value) : Ancestry where
  parent := getOpt v "parent"
  parents := getStrings v "parents"
  extra := v.without ancestryKnown

def fileSourceInfoKnown : List String :=
  ["FileSource", "PreloadFilePath", "PreloadFileCreateUser", "PreloadFileCreateDate",
    "PreloadFileModifyUser", "PreloadFileModifyDate", "Name", "FileSize", "EncodingFormatTypeID",
    "Checksum", "ChecksumAlgorithm"]

def fileSourceInfoToJson (info : FileSourceInfo) : Value :=
  let out := (objectOr info.extra).set "FileSource" (.string info.fileSource)
  let out := setOpt out "PreloadFilePath" info.preloadFilePath
  let out := setOpt out "PreloadFileCreateUser" info.preloadFileCreateUser
  let out := setOpt out "PreloadFileCreateDate" info.preloadFileCreateDate
  let out := setOpt out "PreloadFileModifyUser" info.preloadFileModifyUser
  let out := setOpt out "PreloadFileModifyDate" info.preloadFileModifyDate
  let out := setOpt out "Name" info.name
  let out := setOpt out "FileSize" info.fileSize
  let out := setOpt out "EncodingFormatTypeID" info.encodingFormatTypeId
  let out := setOpt out "Checksum" info.checksum
  setOpt out "ChecksumAlgorithm" info.checksumAlgorithm

/-- `FileSourceInfoFromJson`; the caller notes that the section is there. -/
def fileSourceInfoFromJson (v : Value) : FileSourceInfo where
  fileSource := (getOpt v "FileSource").getD ""
  preloadFilePath := getOpt v "PreloadFilePath"
  preloadFileCreateUser := getOpt v "PreloadFileCreateUser"
  preloadFileCreateDate := getOpt v "PreloadFileCreateDate"
  preloadFileModifyUser := getOpt v "PreloadFileModifyUser"
  preloadFileModifyDate := getOpt v "PreloadFileModifyDate"
  name := getOpt v "Name"
  fileSize := getOpt v "FileSize"
  encodingFormatTypeId := getOpt v "EncodingFormatTypeID"
  checksum := getOpt v "Checksum"
  checksumAlgorithm := getOpt v "ChecksumAlgorithm"
  extra := v.without fileSourceInfoKnown

def datasetPropertiesKnown : List String := ["FileSourceInfo"]

/-- The part of `FileDataToJson` about the section `DatasetProperties`. -/
def datasetPropertiesToJson (ds : DatasetProperties) : Value :=
  (objectOr ds.extra).set "FileSourceInfo" (fileSourceInfoToJson ds.fileSourceInfo)

/-- The part of `FileDataFromJson` about the section `DatasetProperties`. -/
def datasetPropertiesFromJson (v : Value) : DatasetProperties where
  present := true
  extra := v.without datasetPropertiesKnown
  fileSourceInfo :=
    match v.find? "FileSourceInfo" with
    | some (.object ms) => { fileSourceInfoFromJson (.object ms) with present := true }
    | _ => {}

def fileDataKnown : List String :=
  ["Name", "Description", "TotalSize", "EncodingFormatTypeID", "SchemaFormatTypeID", "Endian",
    "Checksum", "ChecksumAlgorithm", "ResourceHomeRegionID", "ResourceHostRegionIDs",
    "ResourceCurationStatus", "ResourceLifecycleStatus", "ResourceSecurityClassification",
    "Source", "ExistenceKind", "DatasetProperties", "ExtensionProperties"]

def fileDataToJson (d : FileData) : Value :=
  let out := objectOr d.extra
  let out := setOpt out "Name" d.name
  let out := setOpt out "Description" d.description
  let out := setOpt out "TotalSize" d.totalSize
  let out := setOpt out "EncodingFormatTypeID" d.encodingFormatTypeId
  let out := setOpt out "SchemaFormatTypeID" d.schemaFormatTypeId
  let out := setOpt out "Endian" d.endian
  let out := setOpt out "Checksum" d.checksum
  let out := setOpt out "ChecksumAlgorithm" d.checksumAlgorithm
  let out := setOpt out "ResourceHomeRegionID" d.resourceHomeRegionId
  let out := if d.resourceHostRegionIds.isEmpty then out
    else out.set "ResourceHostRegionIDs" (strings d.resourceHostRegionIds)
  let out := setOpt out "ResourceCurationStatus" d.resourceCurationStatus
  let out := setOpt out "ResourceLifecycleStatus" d.resourceLifecycleStatus
  let out := setOpt out "ResourceSecurityClassification" d.resourceSecurityClassification
  let out := setOpt out "Source" d.source
  let out := setOpt out "ExistenceKind" d.existenceKind
  let out := out.set "DatasetProperties" (datasetPropertiesToJson d.datasetProperties)
  out.set "ExtensionProperties" (objectOr d.extensionProperties)

def fileDataFromJson (v : Value) : FileData where
  name := getOpt v "Name"
  description := getOpt v "Description"
  totalSize := getOpt v "TotalSize"
  encodingFormatTypeId := getOpt v "EncodingFormatTypeID"
  schemaFormatTypeId := getOpt v "SchemaFormatTypeID"
  endian := getOpt v "Endian"
  checksum := getOpt v "Checksum"
  checksumAlgorithm := getOpt v "ChecksumAlgorithm"
  resourceHomeRegionId := getOpt v "ResourceHomeRegionID"
  resourceHostRegionIds := getStrings v "ResourceHostRegionIDs"
  resourceCurationStatus := getOpt v "ResourceCurationStatus"
  resourceLifecycleStatus := getOpt v "ResourceLifecycleStatus"
  resourceSecurityClassification := getOpt v "ResourceSecurityClassification"
  source := getOpt v "Source"
  existenceKind := getOpt v "ExistenceKind"
  datasetProperties :=
    match v.find? "DatasetProperties" with
    | some (.object ms) => datasetPropertiesFromJson (.object ms)
    | _ => {}
  extensionProperties := (v.find? "ExtensionProperties").getD (.object [])
  extra := v.without fileDataKnown

/-! ## Records -/

def recordKnown : List String :=
  ["id", "kind", "version", "acl", "legal", "data", "ancestry", "meta", "tags"]

/-- `ToJson` -/
def toJson (r : FileMetadataRecord) : Value :=
  let out := objectOr r.extra
  let out := if r.id = "" then out else out.set "id" (.string r.id)
  let out := if r.kind = "" then out else out.set "kind" (.string r.kind)
  let out := if 0 < r.version then out.set "version" (.integer r.version) else out
  let out := out.set "acl" (aclToJson r.acl)
  let out := out.set "legal" (legalToJson r.legal)
  let out := out.set "data" (fileDataToJson r.data)
  let out := match r.ancestry with
    | some a => out.set "ancestry" (ancestryToJson a)
    | none => out
  let out := if r.meta.isNull then out else out.set "meta" r.meta
  if r.tags.isObject && !r.tags.isEmpty then out.set "tags" r.tags else out

def enumError (value name : String) : Error :=
  err .invalidArgument ("Invalid value of " ++ value ++ " for " ++ name)

def checkScalarIndicator (item : Value) : Result Unit :=
  match item.find? "ScalarIndicator" with
  | none => .ok ()
  | some (.string value) =>
    if value ≠ "STANDARD" ∧ value ≠ "NOSCALE" ∧ value ≠ "OVERRIDE" then
      .error (enumError value "ScalarIndicator")
    else .ok ()
  | some _ => .error (enumError "null" "ScalarIndicator")

def checkEndian (data : Value) : Result Unit :=
  match data.find? "Endian" with
  | some (.string value) =>
    if value ≠ "BIG" ∧ value ≠ "LITTLE" then .error (enumError value "Endian") else .ok ()
  | _ => .ok ()

/-- `CheckEnums` -/
def checkEnums (data : Value) : Result Unit := do
  checkEndian data
  match data.find? "VectorHeaderMapping" with
  | some (.array items) => items.forM checkScalarIndicator
  | _ => return ()

/-- The sections that must be there, with the messages where they are not. -/
def requiredSections : List (String × String × Bool) :=
  [("kind", "kind must not be null", false), ("acl", "acl must not be null", false),
    ("legal", "legal tag cannot be empty", false), ("data", "data cannot be empty", true)]

def checkSection (value : Value) : String × String × Bool → Result Unit
  | (key, message, emptyObjectIsEmpty) =>
    match value.find? key with
    | none => .error (err .invalidArgument message)
    | some v =>
      if emptyObjectIsEmpty && v.isObject && v.isEmpty then .error (err .invalidArgument message)
      else .ok ()

/-- `get<std::int64_t>()` of an integer. -/
def toInt64 (n : Int) : Int := n.bmod (2 ^ 64)

theorem toInt64_eq_self {n : Int} (h : -2 ^ 63 ≤ n ∧ n < 2 ^ 63) : toInt64 n = n := by
  unfold toInt64
  rw [Int.bmod_eq_of_le] <;> omega

def sectionOf (value : Value) (key : String) : Result Value :=
  match value.find? key with
  | some (.object ms) => .ok (.object ms)
  | some _ => .error (err .invalidArgument (key ++ " 必须是对象"))
  | none => .ok (.object [])

def versionFrom (value : Value) : Int :=
  match value.find? "version" with
  | some (.integer n) => toInt64 n
  | _ => 0

def ancestryFrom (value : Value) : Option Ancestry :=
  match value.find? "ancestry" with
  | some (.object ms) => some (ancestryFromJson (.object ms))
  | _ => none

def tagsFrom (value : Value) : Value :=
  match value.find? "tags" with
  | some (.object ms) => .object ms
  | _ => .object []

/-- The record of an object with these three sections. -/
def recordOf (value acl legal data : Value) : FileMetadataRecord where
  id := (getOpt value "id").getD ""
  kind := (getOpt value "kind").getD ""
  version := versionFrom value
  acl := aclFromJson acl
  legal := legalFromJson legal
  data := fileDataFromJson data
  ancestry := ancestryFrom value
  «meta» := (value.find? "meta").getD (.array [])
  tags := tagsFrom value
  extra := value.without recordKnown

/-- `ParseFileMetadataRecord` -/
def parseFileMetadataRecord (value : Value) : Result FileMetadataRecord :=
  if !value.isObject then .error (err .invalidArgument "元数据记录必须是 JSON 对象")
  else do
    requiredSections.forM (checkSection value)
    let acl ← sectionOf value "acl"
    let legal ← sectionOf value "legal"
    let data ← sectionOf value "data"
    checkEnums data
    return recordOf value acl legal data

end FileService.Domain
