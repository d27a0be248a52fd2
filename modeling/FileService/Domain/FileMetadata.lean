import FileService.Domain.Types

/-!
# Metadata records and their validation

The record keeps every member of the source's record; `validateMetadataRecord`
reports the issues in the order of the source, whose first one decides the error
that a creation returns.
-/
namespace FileService.Domain
open FileService.Common FileService.Common.Text

structure Acl where
  viewers : List String := []
  owners : List String := []
  extra : Json.Value := .object []

inductive LegalStatus where
  | compliant
  | incompliant
deriving DecidableEq, Repr

structure Legal where
  legaltags : List String := []
  otherRelevantDataCountries : List String := []
  status : LegalStatus := .compliant
  extra : Json.Value := .object []

structure Ancestry where
  parent : Option String := none
  parents : List String := []
  extra : Json.Value := .object []

structure FileSourceInfo where
  fileSource : String := ""
  present : Bool := false
  preloadFilePath : Option String := none
  preloadFileCreateUser : Option String := none
  preloadFileCreateDate : Option String := none
  preloadFileModifyUser : Option String := none
  preloadFileModifyDate : Option String := none
  name : Option String := none
  fileSize : Option String := none
  encodingFormatTypeId : Option String := none
  checksum : Option String := none
  checksumAlgorithm : Option String := none
  extra : Json.Value := .object []

structure DatasetProperties where
  fileSourceInfo : FileSourceInfo := {}
  present : Bool := false
  extra : Json.Value := .object []

structure FileData where
  name : Option String := none
  description : Option String := none
  totalSize : Option String := none
  encodingFormatTypeId : Option String := none
  schemaFormatTypeId : Option String := none
  endian : Option String := none
  checksum : Option String := none
  checksumAlgorithm : Option String := none
  resourceHomeRegionId : Option String := none
  resourceHostRegionIds : List String := []
  resourceCurationStatus : Option String := none
  resourceLifecycleStatus : Option String := none
  resourceSecurityClassification : Option String := none
  source : Option String := none
  existenceKind : Option String := none
  datasetProperties : DatasetProperties := {}
  extensionProperties : Json.Value := .object []
  extra : Json.Value := .object []

structure FileMetadataRecord where
  id : String := ""
  kind : String := ""
  version : Int := 0
  acl : Acl := {}
  legal : Legal := {}
  data : FileData := {}
  ancestry : Option Ancestry := none
  «meta» : Json.Value := .array []
  tags : Json.Value := .object []
  extra : Json.Value := .object []

namespace FileMetadataRecord

/-- `FileSourceOf` -/
def fileSource (r : FileMetadataRecord) : String := r.data.datasetProperties.fileSourceInfo.fileSource

/-- The tenant prefix of the record id, empty when there is none. -/
def partition (r : FileMetadataRecord) : String :=
  if ':' ∈ r.id.toList then String.ofList (r.id.toList.takeWhile (· ≠ ':')) else ""

end FileMetadataRecord

structure ValidationIssue where
  path : String
  message : String
deriving DecidableEq, Repr

def isAsciiAlpha (c : Char) : Bool := c.isAlpha

section AclPrincipal
open Regex

def principalChar : Regex := one fun c => c.isAlphanum || c == '_' || c == '+' || c == '&' ||
  c == '*' || c == '-'

/-- `[a-zA-Z](?:[a-zA-Z0-9-]{0,61}[a-zA-Z0-9])?` -/
def domainLabel : Regex :=
  concat [one isAsciiAlpha,
    opt (concat [upTo 61 (one fun c => c.isAlphanum || c == '-'), one Char.isAlphanum])]

def aclPrincipalRegex : Regex :=
  concat [text "data.", plus principalChar, star (concat [chr '.', plus principalChar]), chr '@',
    plus (concat [domainLabel, chr '.']), domainLabel]

end AclPrincipal

def isValidAclPrincipal (principal : String) : Bool := aclPrincipalRegex.regexMatch principal

def isValidLegalTag (tag : String) : Bool :=
  tag ≠ "" && !hasControlChars tag && byteSize tag ≤ 256

def isCountryCode (c : String) : Bool :=
  match c.toList with
  | [a, b] => isAsciiAlpha a && isAsciiAlpha b
  | _ => false

def issue (path message : String) (holds : Bool) : List ValidationIssue :=
  if holds then [{ path, message }] else []

def kindIssues (kind : String) : List ValidationIssue :=
  if kind = "" then [⟨"kind", "kind must not be null"⟩]
  else
    issue "kind" "Invalid kind" (kind.toList.count ':' + 1 ≠ 4) ++
      issue "kind" "kind 过长" (512 < byteSize kind)

def aclIssues (acl : Acl) : List ValidationIssue :=
  issue "acl.viewers" "Record acl.viewers cannot be empty" acl.viewers.isEmpty ++
  issue "acl.owners" "Record acl.owners cannot be empty" acl.owners.isEmpty ++
  acl.viewers.flatMap (fun v =>
    issue "acl.viewers" ("ACL 主体格式非法：" ++ v) (!isValidAclPrincipal v)) ++
  acl.owners.flatMap (fun o =>
    issue "acl.owners" ("ACL 主体格式非法：" ++ o) (!isValidAclPrincipal o))

def legalIssues (legal : Legal) : List ValidationIssue :=
  let countries := "legal.otherRelevantDataCountries"
  issue "legal.legaltags" "legal tag cannot be empty" legal.legaltags.isEmpty ++
  issue countries "legal.otherRelevantDataCountries 不能为空"
    legal.otherRelevantDataCountries.isEmpty ++
  issue "legal.legaltags" "legal.legaltags 元素必须唯一" (!decide legal.legaltags.Nodup) ++
  issue countries "legal.otherRelevantDataCountries 元素必须唯一"
    (!decide legal.otherRelevantDataCountries.Nodup) ++
  legal.legaltags.flatMap (fun t =>
    issue "legal.legaltags" ("legal tag 非法：" ++ t) (!isValidLegalTag t)) ++
  legal.otherRelevantDataCountries.flatMap (fun c =>
    issue countries ("国家代码必须是 2 个字母：" ++ c) (!isCountryCode c))

def fileSourcePath : String := "data.DatasetProperties.FileSourceInfo.FileSource"

def invalidSourcePathMessage (fileSource : String) : String :=
  "Invalid source file path to copy from " ++ fileSource

def fileSourceIssues (fileSource : String) : List ValidationIssue :=
  if fileSource = "" then [⟨fileSourcePath, "FileSource can not be empty"⟩]
  else
    let bad := issue fileSourcePath (invalidSourcePathMessage fileSource)
    bad (!startsWith fileSource "/") ++ bad (containsText fileSource "..") ++
      bad (hasControlChars fileSource)

def endianIssues (endian : Option String) : List ValidationIssue :=
  match endian with
  | none => []
  | some e =>
    issue "data.Endian" ("Invalid value of " ++ e ++ " for Endian") (e ≠ "BIG" && e ≠ "LITTLE")

def datasetPropertiesIssues (ds : DatasetProperties) : List ValidationIssue :=
  let info := ds.fileSourceInfo
  if !(ds.present || !ds.extra.isEmpty || info.fileSource ≠ "") then
    [⟨"data.DatasetProperties", "DatasetProperties cannot be empty"⟩]
  else
    issue "data.DatasetProperties.FileSourceInfo" "FileSourceInfo cannot be empty"
      (!info.present && info.fileSource = "")

def scalarIndicatorPath : String := "data.VectorHeaderMapping.ScalarIndicator"

def scalarIndicatorIssues (item : Json.Value) : List ValidationIssue :=
  match item.find? "ScalarIndicator" with
  | none => []
  | some (.string value) =>
    issue scalarIndicatorPath ("Invalid value of " ++ value ++ " for ScalarIndicator")
      (value ≠ "STANDARD" && value ≠ "NOSCALE" && value ≠ "OVERRIDE")
  | some _ => [⟨scalarIndicatorPath, "Invalid value of null for ScalarIndicator"⟩]

def vectorHeaderIssues (extra : Json.Value) : List ValidationIssue :=
  match extra.find? "VectorHeaderMapping" with
  | some (.array items) => items.flatMap scalarIndicatorIssues
  | _ => []

def validateMetadataRecord (r : FileMetadataRecord) : List ValidationIssue :=
  kindIssues r.kind ++ aclIssues r.acl ++ legalIssues r.legal ++ fileSourceIssues r.fileSource ++
    endianIssues r.data.endian ++ datasetPropertiesIssues r.data.datasetProperties ++
    vectorHeaderIssues r.data.extra

/-- A record without issues names a non-empty file source. -/
theorem kind_ne_empty_of_valid {r : FileMetadataRecord}
    (h : validateMetadataRecord r = []) : r.kind ≠ "" := by
  intro hkind
  simp only [validateMetadataRecord, List.append_eq_nil_iff] at h
  simp [kindIssues, hkind] at h

theorem fileSource_ne_empty_of_valid {r : FileMetadataRecord}
    (h : validateMetadataRecord r = []) : r.fileSource ≠ "" := by
  intro hfs
  simp only [validateMetadataRecord, List.append_eq_nil_iff] at h
  simp [fileSourceIssues, hfs] at h

end FileService.Domain
