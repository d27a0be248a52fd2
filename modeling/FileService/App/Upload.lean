import FileService.App.CreateFileMetadata

/-!
# Issuing upload addresses and receiving uploads

`LocationIssuer::IssueUploadLocation` with the use cases `GetUploadLocation`,
which adds the upload lease, and `UploadFile`, which streams the bytes and may
register them at once.
-/
namespace FileService.App
open FileService.Common FileService.Domain

structure SelfSignedTtlOptions where
  defaultSeconds : Int := 3600
  maxSeconds : Int := 604800

/-- What the location issuer was constructed with. -/
structure IssuerOptions where
  selfBaseUrl : String := ""
  expiry : ExpiryOptions := {}
  partitionsWired : Bool := true
  selfSignedTtl : SelfSignedTtlOptions := {}

structure LocationResult where
  fileId : String
  fileSource : String
  signedUrl : String
  driver : String
  zone : StorageZone
  expiresAtEpochSeconds : Int
  nativePresign : Bool

/-- `ApplySelfSignedTtl` -/
def applySelfSignedTtl (options : IssuerOptions) (ttlSeconds : Int) (caps : BlobCapabilities)
    (expiryTimeProvided : Bool) : Int :=
  if caps.nativePresign then ttlSeconds
  else
    let bounded := min ttlSeconds options.selfSignedTtl.maxSeconds
    if expiryTimeProvided then bounded else min bounded options.selfSignedTtl.defaultSeconds

/-- `SignAndShape` for an upload. -/
def signUpload (options : IssuerOptions) (store : StoreId) (ref : ObjectRef)
    (location : FileLocation) (caps : BlobCapabilities) (partition : String) (ttlSeconds : Int) :
    Action LocationResult := do
  let signed : SignedLocation ←
    if caps.nativePresign then
      Action.tryResult (← Action.ask (.blobs store
        (.presignPut ref { expiresInSeconds := ttlSeconds, method := "PUT" })))
    else do
      let now ← Action.ask .nowEpochSeconds
      let token : TransferToken :=
        { partition
          fileId := location.fileId
          container := ref.container
          objectKey := ref.key
          zone := location.zone
          op := "put"
          expiresAtEpochSeconds := now + ttlSeconds }
      let url ← Action.tryResult (← Action.ask (.service (.encodeUrl token options.selfBaseUrl)))
      pure { url
             method := "PUT"
             fileSource := location.fileSource
             expiresAtEpochSeconds := token.expiresAtEpochSeconds }
  let expiresAt ←
    if 0 < signed.expiresAtEpochSeconds then pure signed.expiresAtEpochSeconds
    else do
      let now ← Action.ask .nowEpochSeconds
      pure (now + ttlSeconds)
  return { fileId := location.fileId
           fileSource := location.fileSource
           signedUrl := signed.url
           driver := caps.driverName
           zone := location.zone
           expiresAtEpochSeconds := expiresAt
           nativePresign := caps.nativePresign }

/-- The end of `SignAndShape`: what is answered once the address is signed. -/
def shapeSigned (location : FileLocation) (caps : BlobCapabilities) (ttlSeconds : Int)
    (signed : SignedLocation) : Action LocationResult := do
  let expiresAt ←
    if 0 < signed.expiresAtEpochSeconds then pure signed.expiresAtEpochSeconds
    else do
      let now ← Action.ask .nowEpochSeconds
      pure (now + ttlSeconds)
  return { fileId := location.fileId
           fileSource := location.fileSource
           signedUrl := signed.url
           driver := caps.driverName
           zone := location.zone
           expiresAtEpochSeconds := expiresAt
           nativePresign := caps.nativePresign }

/-- The file id of an issue: the requested one, if it is valid and unused, or a new one. -/
def chooseFileId (partition : String) (requested : Option String) : Action String := do
  match requested with
  | none => Action.ask .newUuidNoDash
  | some fileId =>
    if fileId = "" then Action.ask .newUuidNoDash
    else if !isValidFileId fileId then Action.fail (err .invalidArgument "Invalid FileID")
    else
      match ← Action.ask (.locations (.find partition fileId)) with
      | .ok _ =>
        Action.fail (err .locationAlreadyExists
          ("Location for fileID = " ++ fileId ++ " already exists"))
      | .error _ => return fileId

/-- The location record of a fresh upload. -/
def issuedLocation (fileId fileSource userId : String) (ref : ObjectRef) (caps : BlobCapabilities)
    (nowSeconds : Int) : FileLocation :=
  { fileId
    zone := .staging
    fileSource
    userId
    createdAtEpochSeconds := nowSeconds
    updatedAtEpochSeconds := nowSeconds
    driver := (parseStorageDriver caps.driverName).getD .posix
    extra := (((Json.Value.object []).set extraContainer (.string ref.container)).set
      extraObjectKey (.string ref.key)).set extraDriverName (.string caps.driverName) }

/-- `IssueUploadLocation` -/
def issueUploadLocation (options : IssuerOptions) (partition userId : String)
    (requestedFileId expiryTime : Option String) : Action LocationResult := do
  if partition = "" then Action.fail (err .invalidArgument "partition 不能为空")
  if userId = "" then Action.fail (err .invalidArgument "user_id 不能为空")
  let ttl ← Action.tryResult (parseExpiry expiryTime options.expiry)
  let fileId ← chooseFileId partition requestedFileId
  let nowMillis ← Action.ask .nowEpochMillis
  let parts : SourcePath :=
    { userId
      epochMillis := nowMillis
      timestamp := formatTimestamp (nowMillis.tdiv 1000) (nowMillis.tmod 1000)
      fileId }
  let fileSource ← Action.tryResult (makeFileSource parts)
  let container ← Action.tryResult (←
    if options.partitionsWired then containerFor partition .staging
    else pure (defaultContainer partition .staging))
  let ref : ObjectRef := { container, key := makePosixKey parts }
  let store ← Action.tryResult (← Action.ask (.forPartition partition .staging))
  Action.tryResult (← Action.ask (.blobs store (.ensureContainer ref.container)))
  Action.tryResult (← Action.ask (.blobs store (.put ref [] {})))
  let caps ← Action.ask (.blobCapabilities store)
  let ttl := applySelfSignedTtl options ttl caps (expiryTime.getD "" ≠ "")
  let now ← Action.ask .nowEpochSeconds
  let location := issuedLocation fileId fileSource userId ref caps now
  Action.tryResult (← Action.ask (.locations (.save partition location)))
  signUpload options store ref location caps partition ttl

/-- The end of `IssueUploadLocation`, from the name of the container on. -/
def placeUpload (options : IssuerOptions) (partition userId fileId fileSource key : String)
    (ttl : BlobCapabilities → Int) (named : Result String) : Action LocationResult := do
  let container ← Action.tryResult named
  let store ← Action.tryResult (← Action.ask (.forPartition partition .staging))
  Action.tryResult (← Action.ask (.blobs store (.ensureContainer container)))
  Action.tryResult (← Action.ask (.blobs store (.put { container, key } [] {})))
  let caps ← Action.ask (.blobCapabilities store)
  let now ← Action.ask .nowEpochSeconds
  Action.tryResult (← Action.ask (.locations (.save partition
    (issuedLocation fileId fileSource userId { container, key } caps now))))
  signUpload options store { container, key }
    (issuedLocation fileId fileSource userId { container, key } caps now) caps partition (ttl caps)

/-- `RemoveIssuedUpload` -/
def removeIssuedUpload (caller : CallerContext) (fileId : String) : Action Unit := do
  match ← Action.ask (.locations (.find caller.partition fileId)) with
  | .error _ => pure ()
  | .ok stored =>
    match ← Action.attempt (objectRefFromLocation stored) with
    | .error _ => pure ()
    | .ok ref =>
      match ← Action.ask (.forPartition caller.partition stored.zone) with
      | .error _ => pure ()
      | .ok store =>
        let _ ← Action.ask (.blobs store (.remove ref))
  let _ ← Action.ask (.locations (.delete caller.partition fileId))

/-- `AcquireUploadLease` -/
def acquireUploadLease (u : UseCasePorts) (caller : CallerContext) (location : LocationResult) :
    Action Unit :=
  if !leaseEnabled u then pure ()
  else do
    match ← Action.ask (.leases (.acquire caller.partition location.fileSource u.instanceId
      (leaseTtlMillis u))) with
    | .ok _ => pure ()
    | .error e =>
      removeIssuedUpload caller location.fileId
      Action.fail (if e.kind = .unavailable then leaseTaken else leaseNotAcquired e)

/-- `GetUploadLocation::Execute` -/
def getUploadLocation (options : IssuerOptions) (u : UseCasePorts) (caller : CallerContext)
    (requestedFileId expiryTime : Option String) : Action LocationResult :=
  audited u caller "createLocation" (requestedFileId.getD "") do
    authorizeCaller caller roleFileEditors
    let result ← issueUploadLocation options caller.partition caller.userId requestedFileId
      expiryTime
    acquireUploadLease u caller result
    return (some result.fileId, result)

structure UploadStreamRequest where
  fileSource : String
  container : Option String := none
  key : Option String := none
  contentType : String := ""
  expectedChecksum : String := ""
  checksumAlgorithm : String := ""
  registerMetadata : Bool := false
  metadataRecord : Option FileMetadataRecord := none

structure UploadStreamResult where
  fileId : String
  fileSource : String
  bytesWritten : Nat
  checksum : String
  checksumAlgorithm : String
  metadataRecordId : String := ""

/-- The registration that an upload may ask for. -/
def registerUpload (polls : Nat) (u : UseCasePorts) (caller : CallerContext)
    (request : UploadStreamRequest) : Action String :=
  if !request.registerMetadata then pure ""
  else
    match request.metadataRecord with
    | none => Action.fail (err .invalidArgument "register_metadata=true 时必须提供 metadata")
    | some record =>
      if record.fileSource ≠ request.fileSource then
        Action.fail (err .invalidArgument "metadata 的 data.FileSource 与上传目标不一致")
      else createFileMetadata polls u caller record

/-- `UploadFile::Execute` with the bytes that the stream delivers. -/
def uploadFile (polls : Nat) (u : UseCasePorts) (caller : CallerContext)
    (request : UploadStreamRequest) (body : Bytes) : Action UploadStreamResult :=
  audited u caller "uploadFile" request.fileSource do
    authorizeCaller caller roleFileEditors
    if request.fileSource = "" then
      Action.fail (err .invalidArgument
        "UploadFile 要求 file_source（先调用 GetUploadLocation 取得）")
    match ← Action.ask (.locations (.findByFileSource caller.partition request.fileSource)) with
    | .error _ =>
      Action.fail (err .notFound ("没有 FileSource = " ++ request.fileSource ++
        " 的位置记录（请先调用 GetUploadLocation）"))
    | .ok location =>
      let ref ← objectRefFromLocation location
      if (request.container.getD ref.container) ≠ ref.container then
        Action.fail (err .permissionDenied "container 与已签发的位置记录不一致（不接受坐标覆盖）")
      if (request.key.getD ref.key) ≠ ref.key then
        Action.fail (err .permissionDenied "key 与已签发的位置记录不一致（不接受坐标覆盖）")
      let store ← Action.tryResult (← Action.ask (.forPartition caller.partition location.zone))
      Action.tryResult (← Action.ask (.blobs store (.ensureContainer ref.container)))
      Action.tryResult (← Action.ask (.blobs store (.put ref body
        { contentType := request.contentType
          expectedChecksum := request.expectedChecksum
          checksumAlgorithm := request.checksumAlgorithm })))
      let stat ← Action.tryResult (← Action.ask (.blobs store (.stat ref)))
      let checksum ←
        if stat.checksum = "" then
          computeChecksumStreaming u caller.partition ref location.zone
        else pure stat.checksum
      let metadataRecordId ← registerUpload polls u caller request
      return (some location.fileId,
        { fileId := location.fileId
          fileSource := location.fileSource
          bytesWritten := stat.size.toNat
          checksum
          checksumAlgorithm := if stat.checksum = "" then "SHA256" else stat.checksumAlgorithm
          metadataRecordId })

end FileService.App
