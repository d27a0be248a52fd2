import FileService.App.Support

/-!
# Copying and downloading objects

`CopyFiles` and `ServerSideCopy` write objects and no record; `DownloadFile`
delivers the bytes that a location record refers to. A target key that a client
names is rebuilt from the parts of its file source.
-/
namespace FileService.App
open FileService.Common FileService.Common.Text FileService.Domain

def roleStorageCreator : String := "service.storage.creator"
def roleStorageAdmin : String := "service.storage.admin"

def looksLikeFileSource (value : String) : Bool :=
  value.toList.head? == some '/' && !containsText value ".."

/-- `strtoll` of decimal digits: saturated at the largest 64-bit value. -/
def strtoll (digits : List Char) : Int :=
  min (digits.foldl (fun value c => value * 10 + (c.toNat - '0'.toNat : Nat)) 0) (2 ^ 63 - 1)

/-- The second segment of a file source: `<epochMillis>-<timestamp>`. -/
def parseEpochAndTimestamp (segment : String) : Option (Int × String) :=
  let cs := segment.toList
  let epochText := cs.takeWhile (· ≠ '-')
  match cs.drop epochText.length with
  | [] => none
  | _ :: rest =>
    let ts := String.ofList rest
    if epochText.isEmpty || !epochText.all Char.isDigit || 19 < epochText.length ||
        !isTimestampShape ts then none
    else some (strtoll epochText, ts)

/-- `ParseFileSource`: three checked segments after a leading slash. -/
def parseFileSource (fileSource : String) : Result SourcePath :=
  let invalid : Result SourcePath :=
    .error (err .invalidArgument (invalidSourcePathMessage fileSource))
  if fileSource = "" then .error (err .invalidArgument "FileSource can not be empty")
  else if maxFileSourceLength < byteSize fileSource then
    .error (err .invalidArgument ("FileSource 超过长度上限 " ++ toString maxFileSourceLength))
  else if fileSource.toList.head? ≠ some '/' then invalid
  else if fileSource.toList.any fun c => isControl c || c == '\\' || c == '%' then invalid
  else
    match splitOnChar '/' (String.ofList fileSource.toList.tail) with
    | [userId, epochAndTs, fileId] =>
      if !isSafeSegment userId then invalid
      else
        match parseEpochAndTimestamp epochAndTs with
        | none => invalid
        | some (epochMillis, timestamp) =>
          if !isSafeSegment fileId || maxFileIdLength < byteSize fileId then invalid
          else .ok { userId, epochMillis, timestamp, fileId }
    | _ => invalid

structure CopyFileOutcome where
  success : Bool := false
  datasetBlobStoragePath : String := ""

/-- The round of `CopyFiles` for one source. -/
def copyFile (caller : CallerContext) (fileSource : String) : Action CopyFileOutcome := do
  if !looksLikeFileSource fileSource then
    Action.fail (err .invalidSourcePath (invalidSourcePathMessage fileSource))
  match ← Action.ask (.locations (.findByFileSource caller.partition fileSource)) with
  | .error _ => return {}
  | .ok location =>
    let fromRef ← Action.attempt (objectRefFromLocation location)
    let container ← containerFor caller.partition .persistent
    match fromRef, container with
    | .ok fromRef, .ok container =>
      let toRef : ObjectRef := { container, key := fromRef.key }
      let copied ← Action.attempt
        (copyBetweenZones caller.partition fromRef toRef location.zone .persistent)
      return { success := copied.isOk
               datasetBlobStoragePath := toRef.container ++ "/" ++ toRef.key }
    | _, _ => return {}

/-- The loop of `CopyFiles`: a source of another shape ends it with an error. -/
def copyEach (caller : CallerContext) : List String → Action (List CopyFileOutcome)
  | [] => pure []
  | source :: sources => do
    let outcome ← copyFile caller source
    let rest ← copyEach caller sources
    return outcome :: rest

/-- `CopyFiles::Execute` -/
def copyFiles (u : UseCasePorts) (caller : CallerContext) (sources : List String) :
    Action (List CopyFileOutcome) :=
  audited u caller "copyFiles" "" do
    authorizeCallerAny caller [roleStorageCreator, roleStorageAdmin]
    let out ← copyEach caller sources
    return (some "", out)

structure ServerSideCopyResult where
  fileSource : String
  bytesCopied : Nat

/-- `ServerSideCopy::Execute` -/
def serverSideCopy (u : UseCasePorts) (caller : CallerContext)
    (sourceFileSource targetFileSource : String) (targetZone : StorageZone) :
    Action ServerSideCopyResult :=
  audited u caller "serverSideCopy" sourceFileSource do
    authorizeCallerAny caller [roleStorageCreator, roleStorageAdmin]
    if !looksLikeFileSource sourceFileSource then
      Action.fail (err .invalidSourcePath (invalidSourcePathMessage sourceFileSource))
    if !looksLikeFileSource targetFileSource then
      Action.fail (err .invalidArgument ("target_file_source 非法：" ++ targetFileSource))
    let sourceLocation ← Action.tryResult
      (← Action.ask (.locations (.findByFileSource caller.partition sourceFileSource)))
    let fromRef ← objectRefFromLocation sourceLocation
    -- the key comes from the checked parts: no client writes to a key of its own making
    let parts ← Action.tryResult (parseFileSource targetFileSource)
    let container ← Action.tryResult (← containerFor caller.partition targetZone)
    let toRef : ObjectRef := { container, key := makePosixKey parts }
    let stat ← copyBetweenZones caller.partition fromRef toRef sourceLocation.zone targetZone
    return (some sourceLocation.fileId,
      { fileSource := targetFileSource, bytesCopied := stat.size.toNat })

structure DownloadStreamResult where
  totalSize : Int
  checksum : String
  checksumAlgorithm : String
  bytesWritten : Nat

/-- `DownloadFile::Execute`: the result and the bytes that the sink was given. -/
def downloadFile (u : UseCasePorts) (caller : CallerContext) (fileId fileSource : String)
    (offset length : Nat) : Action (DownloadStreamResult × Bytes) :=
  let objectId := if fileId = "" then fileSource else fileId
  audited u caller "downloadFile" objectId do
    authorizeCaller caller roleFileViewers
    if fileId = "" ∧ fileSource = "" then
      Action.fail (err .invalidArgument "DownloadFile 要求 file_id 或 file_source")
    let location ← Action.tryResult (←
      if fileId = "" then Action.ask (.locations (.findByFileSource caller.partition fileSource))
      else Action.ask (.locations (.find caller.partition fileId)))
    let ref ← objectRefFromLocation location
    let store ← Action.tryResult (← Action.ask (.forPartition caller.partition location.zone))
    let stat ← Action.tryResult (← Action.ask (.blobs store (.stat ref)))
    if !stat.exists then Action.fail (err .notFound ("对象不存在：" ++ ref.key))
    let data ← Action.tryResult (← Action.ask (.blobs store (.get ref { offset, length })))
    return (some objectId,
      ({ totalSize := stat.size
         checksum := stat.checksum
         checksumAlgorithm := stat.checksumAlgorithm
         bytesWritten := data.length }, data))

end FileService.App
