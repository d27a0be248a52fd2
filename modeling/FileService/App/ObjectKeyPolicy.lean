import FileService.Domain.Ports

/-!
# Kinds, expiry times, object keys and container names

The pure policies of the use cases: which kinds and file ids are accepted, how
long an address is valid, and how file sources, object keys and container names
are built.
-/
namespace FileService.App
open FileService.Common FileService.Common.Text FileService.Domain

section Kind
open Regex

def kindSegment : Regex := plus (one fun c => isWord c || c == '-' || c == '.')
def digits : Regex := plus (one Char.isDigit)

/-- The dots of the version are unescaped in the source, and stay so. -/
def kindRegex : Regex :=
  concat [kindSegment, chr ':', kindSegment, chr ':', kindSegment, chr ':', digits, one isDot,
    digits, one isDot, digits]

end Kind

def invalidKindMessage : String := "Invalid kind"
def invalidKindSourceMessage : String := "Invalid source in kind"
def invalidKindEntityMessage : String := "Invalid entity in kind"
def fileGenericEntity : String := "dataset--File.Generic"
def workspaceSource : String := "wks"

structure KindParts where
  partition : String
  source : String
  entity : String
  version : String

/-- `KindValidator::Validate` -/
def validateKind (kind : String) : Result KindParts :=
  if !kindRegex.regexMatch kind then .error (err .invalidArgument invalidKindMessage)
  else
    match splitOnChar ':' kind with
    | [partition, source, entity, version] =>
      if source ≠ workspaceSource then .error (err .invalidArgument invalidKindSourceMessage)
      else if entity ≠ fileGenericEntity then .error (err .invalidArgument invalidKindEntityMessage)
      else .ok { partition, source, entity, version }
    | _ => .error (err .invalidArgument invalidKindMessage)

structure ExpiryOptions where
  defaultSeconds : Int := 3600
  maxSeconds : Int := 7 * 86400

def expiryInvalidMessage : String :=
  "expiryTime pattern isn't supported. Value should be one of these regex patterns " ++
    "^[0-9]+M$ , ^[0-9]+H$ , ^[0-9]+D$"

/-- Products of the source are of 64-bit integers. -/
def wrap64 (n : Int) : Int := n.bmod (2 ^ 64)

/-- `ParseDigits`: at most 18 decimal digits, so the accumulator never overflows. -/
def parseDigits (text : List Char) : Option Int :=
  if text.isEmpty || 18 < text.length || !text.all Char.isDigit then none
  else some (text.foldl (fun value c => value * 10 + (c.toNat - '0'.toNat : Nat)) 0)

def capWith (seconds : Int) (options : ExpiryOptions) : Int :=
  if seconds < 0 then 0 else min seconds options.maxSeconds

/-- `ExpiryPolicy::Parse` -/
def parseExpiry (raw : Option String) (options : ExpiryOptions) : Result Int :=
  let invalid : Result Int := .error (err .invalidArgument expiryInvalidMessage)
  match raw with
  | none => .ok options.defaultSeconds
  | some raw =>
    match raw.toList.getLast? with
    | none => .ok options.defaultSeconds
    | some unit =>
      match parseDigits raw.toList.dropLast with
      | none => invalid
      | some value =>
        if unit = 'M' then .ok (capWith (wrap64 (value * 60)) options)
        else if unit = 'H' then .ok (capWith (wrap64 (value * 3600)) options)
        else if unit = 'D' then .ok (capWith (wrap64 (value * 86400)) options)
        else invalid

structure CivilDate where
  year : Int
  month : Int
  day : Int

/-- `gmtime_r`: the civil date of a day counted from 1970-01-01. -/
def civilFromDays (days : Int) : CivilDate :=
  let z := days + 719468
  let era := z / 146097
  let doe := z - era * 146097
  let yoe := (doe - doe / 1460 + doe / 36524 - doe / 146096) / 365
  let doy := doe - (365 * yoe + yoe / 4 - yoe / 100)
  let mp := (5 * doy + 2) / 153
  let month := if mp < 10 then mp + 3 else mp - 9
  { year := yoe + era * 400 + (if month ≤ 2 then 1 else 0)
    month
    day := doy - (153 * mp + 2) / 5 + 1 }

/-- A decimal number with leading zeros up to `width` digits. -/
def padded (width : Nat) (n : Int) : String :=
  String.ofList ((toString n).toList.leftpad width '0')

/-- `ToIso8601Utc` -/
def toIso8601Utc (epochSeconds millis : Int) : String :=
  let date := civilFromDays (epochSeconds / 86400)
  let s := epochSeconds % 86400
  toString date.year ++ "-" ++ padded 2 date.month ++ "-" ++ padded 2 date.day ++ "T" ++
    padded 2 (s / 3600) ++ ":" ++ padded 2 (s % 3600 / 60) ++ ":" ++ padded 2 (s % 60) ++ "." ++
    padded 3 (millis.tmod 1000) ++ "Z"

structure SourcePath where
  userId : String
  epochMillis : Int
  timestamp : String
  fileId : String

def isSafeSegment (segment : String) : Bool :=
  segment ≠ "" && segment ≠ "." && segment ≠ ".." &&
    segment.toList.all fun c => c.isAlphanum || c == '.' || c == '_' || c == '-'

/-- `yyyy-MM-dd-HH-mm-ss-SSS` -/
def isTimestampShape (ts : String) : Bool :=
  byteSize ts = 23 && ts.toList.length = 23 &&
    ts.toList.zipIdx.all fun (c, i) =>
      if i ∈ [4, 7, 10, 13, 16, 19] then c == '-' else c.isDigit

/-- `FormatTimestamp` -/
def formatTimestamp (epochSeconds millis : Int) : String :=
  let iso := (toIso8601Utc epochSeconds millis).toList
  if iso.length < 20 then ""
  else
    let out := (iso.take 19).map fun c => if c = 'T' ∨ c = ':' then '-' else c
    String.ofList (out ++ '-' :: (iso.drop 20).take 3)

def maxFileIdLength : Nat := 512
def maxFileSourceLength : Nat := 1024

/-- `MakePosixKey` -/
def makePosixKey (parts : SourcePath) : String :=
  parts.userId ++ "/" ++ toString parts.epochMillis ++ "-" ++ parts.timestamp ++ "/" ++ parts.fileId

/-- `MakeFileSource` -/
def makeFileSource (parts : SourcePath) : Result String :=
  if !isSafeSegment parts.userId then
    .error (err .invalidArgument ("userId 段非法：" ++ parts.userId))
  else if !isSafeSegment parts.fileId || maxFileIdLength < byteSize parts.fileId then
    .error (err .invalidArgument ("fileID 段非法：" ++ parts.fileId))
  else if parts.epochMillis ≤ 0 then .error (err .invalidArgument "epochMillis 必须为正")
  else if !isTimestampShape parts.timestamp then
    .error (err .invalidArgument ("时间戳格式必须是 yyyy-MM-dd-HH-mm-ss-SSS：" ++ parts.timestamp))
  else
    let out := "/" ++ parts.userId ++ "/" ++ toString parts.epochMillis ++ "-" ++
      parts.timestamp ++ "/" ++ parts.fileId
    if maxFileSourceLength < byteSize out then
      .error (err .invalidArgument ("FileSource 超过长度上限 " ++ toString maxFileSourceLength))
    else .ok out

/-- The key of an issued object is its file source without the leading slash. -/
theorem makeFileSource_eq_ok {parts : SourcePath} {fs : String} (h : makeFileSource parts = .ok fs) :
    fs = "/" ++ makePosixKey parts := by
  unfold makeFileSource at h
  dsimp only at h
  split_ifs at h
  cases h
  simp only [makePosixKey, String.append_assoc]

def validateContainerName (name what : String) : Result String :=
  if name = "" then .error (err .invalidArgument (what ++ " 不能为空"))
  else if name.toList.any fun c => isControl c || c == '/' || c == '\\' || c == '%' then
    .error (err .invalidArgument (what ++ " 含非法字符：" ++ name))
  else .ok name

/-- `ContainerFor(partition, zone)`: the default name. -/
def defaultContainer (partition : String) (zone : StorageZone) : Result String := do
  let name ← validateContainerName partition "partition"
  return toLower name ++ "-" ++ match zone with
    | .staging => "staging"
    | .persistent => "persistent"

/-- `ContainerFor(config, zone)`: the configured name, or the default one. -/
def configuredContainer (config : PartitionConfig) (zone : StorageZone) : Result String :=
  let overrideName := match zone with
    | .staging => config.stagingContainer
    | .persistent => config.persistentContainer
  if overrideName = "" then defaultContainer config.partition zone
  else validateContainerName overrideName "配置的容器名"

/-- The name that a reply of the partition registry leads to. -/
def containerOf (partition : String) (zone : StorageZone) (config : Result PartitionConfig) :
    Result String :=
  match config with
  | .ok config => configuredContainer config zone
  | .error _ => defaultContainer partition zone

/-- `ContainerFor(partitions, partition, zone)` -/
def containerFor (partition : String) (zone : StorageZone) : Action (Result String) := do
  let config ← Action.ask (.partitionConfig partition)
  return containerOf partition zone config

def isFileIdChar (c : Char) : Bool :=
  c.isAlphanum || c == '_' || c == '-' || c == ',' || c == ' ' || c == '\t'

/-- `IsValidFileId` -/
def isValidFileId (fileId : String) : Bool :=
  let cs := fileId.toList
  let base := cs.takeWhile isFileIdChar
  byteSize fileId ≤ maxFileIdLength && !base.isEmpty &&
    match cs.drop base.length with
    | [] => true
    | c :: suffix => c == '.' && !suffix.isEmpty && suffix.all isWord

end FileService.App
