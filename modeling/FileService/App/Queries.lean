import FileService.App.Upload
import FileService.App.Copies

/-!
# Use cases that read

Addresses for downloads, listings, records and instructions, each under the
audit of its own operation. `GetInfo` is not audited and calls no port.
-/
namespace FileService.App
open FileService.Common FileService.Common.Text FileService.Domain

def roleDeliveryViewer : String := "service.delivery.viewer"
def roleDatasetViewers : String := "service.dataset.viewers"
def roleDatasetEditors : String := "service.dataset.editors"

def toUpper (text : String) : String := String.ofList (text.toList.map Char.toUpper)

/-- `SignAndShape` for a download. -/
def signDownload (options : IssuerOptions) (store : StoreId) (ref : ObjectRef)
    (location : FileLocation) (caps : BlobCapabilities) (partition : String) (ttlSeconds : Int) :
    Action LocationResult := do
  let signed : SignedLocation ←
    if caps.nativePresign then
      Action.tryResult (← Action.ask (.blobs store
        (.presignGet ref { expiresInSeconds := ttlSeconds, method := "GET" })))
    else do
      let now ← Action.ask .nowEpochSeconds
      let token : TransferToken :=
        { partition
          fileId := location.fileId
          container := ref.container
          objectKey := ref.key
          zone := location.zone
          op := "get"
          expiresAtEpochSeconds := now + ttlSeconds }
      let url ← Action.tryResult (← Action.ask (.service (.encodeUrl token options.selfBaseUrl)))
      pure { url
             method := "GET"
             fileSource := location.fileSource
             expiresAtEpochSeconds := token.expiresAtEpochSeconds }
  let expiresAt ←
    if 0 < signed.expiresAtEpochSeconds then pure signed.expiresAtEpochSeconds
    else do
      let now ← Action.ask .nowEpochSeconds
      pure (now + ttlSeconds)
  return { fileId := location.fileId
           fileSource := location.fileSource
           signedUrl := signed.url
           driver := caps.driverName
           zone := location.zone
           expiresAtEpochSeconds := expiresAt
           nativePresign := caps.nativePresign }

/-- `IssueDownloadLocation` -/
def issueDownloadLocation (options : IssuerOptions) (partition fileId : String)
    (expiryTime : Option String) : Action LocationResult := do
  if partition = "" then Action.fail (err .invalidArgument "partition 不能为空")
  if fileId = "" then Action.fail (err .invalidArgument "file_id 不能为空")
  let ttl ← Action.tryResult (parseExpiry expiryTime options.expiry)
  let location ← Action.tryResult (← Action.ask (.locations (.find partition fileId)))
  let ref ← objectRefFromLocation location
  let store ← Action.tryResult (← Action.ask (.forPartition partition location.zone))
  let caps ← Action.ask (.blobCapabilities store)
  let ttl := applySelfSignedTtl options ttl caps (expiryTime.getD "" ≠ "")
  signDownload options store ref location caps partition ttl

/-- `PhysicalLocationOf` -/
def physicalLocationOf (location : FileLocation) : Action String := do
  match ← Action.attempt (objectRefFromLocation location) with
  | .ok ref => return ref.container ++ "/" ++ ref.key
  | .error _ => return location.fileSource

/-- `ProviderKeyOf`; a driver name that is no text makes the JSON library throw. -/
def providerKeyOf (location : FileLocation) : Action String :=
  match location.extra.find? extraDriverName with
  | some name =>
    match name.asString? with
    | some text => pure (toUpper text)
    | none => throw (.exception "json.exception.type_error.302")
  | none => pure (toUpper (storageDriverName location.driver))

structure FileLocationView where
  driver : String
  location : String
  fileSource : String

/-- `GetFileLocation::Execute` -/
def getFileLocation (u : UseCasePorts) (caller : CallerContext) (fileId : String) :
    Action FileLocationView :=
  audited u caller "readFileLocation" fileId do
    authorizeCaller caller roleFileEditors
    let location ← Action.tryResult (← Action.ask (.locations (.find caller.partition fileId)))
    let driver ← providerKeyOf location
    let physical ← physicalLocationOf location
    return (some fileId,
      { driver := toLower driver, location := physical, fileSource := location.fileSource })

structure DownloadLocationResult where
  fileId : String
  signedUrl : String
  driver : String
  expiresAtEpochSeconds : Int
  nativePresign : Bool

/-- `GetDownloadLocation::Execute` -/
def getDownloadLocation (options : IssuerOptions) (u : UseCasePorts) (caller : CallerContext)
    (fileId : String) (expiryTime : Option String) : Action DownloadLocationResult :=
  audited u caller "createDownloadLocation" fileId do
    authorizeCaller caller roleFileViewers
    let result ← issueDownloadLocation options caller.partition fileId expiryTime
    return (some fileId,
      { fileId := result.fileId
        signedUrl := result.signedUrl
        driver := result.driver
        expiresAtEpochSeconds := result.expiresAtEpochSeconds
        nativePresign := result.nativePresign })

structure FileListRequest where
  userId : String := ""
  timeFromEpochSeconds : Int := -1
  timeToEpochSeconds : Int := -1
  pageNum : Int := 0
  items : Int := 0

structure FileListEntry where
  fileId : String
  driver : String
  location : String
  createdAtEpochSeconds : Int
  createdBy : String

structure FileListResult where
  content : List FileListEntry
  number : Int
  numberOfElements : Nat
  size : Int
  total : Int

def fileListEntry (location : FileLocation) : Action FileListEntry := do
  let driver ← providerKeyOf location
  let physical ← physicalLocationOf location
  return { fileId := location.fileId
           driver := toLower driver
           location := physical
           createdAtEpochSeconds := location.createdAtEpochSeconds
           createdBy := location.userId }

/-- What is left of a number in an `int`. -/
def wrap32 (n : Int) : Int := n.bmod (2 ^ 32)

/-- `GetFileList::Execute`; the offset is a product of two `int`s. -/
def getFileList (u : UseCasePorts) (caller : CallerContext) (request : FileListRequest) :
    Action FileListResult :=
  audited u caller "getFileList" "" do
    authorizeCaller caller roleFileEditors
    if request.items ≤ 0 then Action.fail (err .invalidArgument "Items 必须 > 0")
    if request.pageNum < 0 then Action.fail (err .invalidArgument "PageNum 必须 >= 0")
    if 0 ≤ request.timeFromEpochSeconds ∧ 0 ≤ request.timeToEpochSeconds ∧
        request.timeToEpochSeconds < request.timeFromEpochSeconds then
      Action.fail (err .invalidArgument "TimeFrom should be before TimeTo")
    let page ← Action.tryResult (← Action.ask (.locations (.list caller.partition
      { userId := request.userId
        createdAfterEpochSeconds := request.timeFromEpochSeconds
        createdBeforeEpochSeconds := request.timeToEpochSeconds
        limit := request.items
        offset := wrap32 (request.pageNum * request.items) })))
    if page.total = 0 ∨ page.records.isEmpty then
      Action.fail (err .invalidArgument ("Nothing found for such filter and page(num: " ++
        toString request.pageNum ++ ", size: " ++ toString request.items ++ ")."))
    let content ← page.records.mapM fileListEntry
    return (some "",
      { content
        number := request.pageNum
        numberOfElements := content.length
        size := request.items
        total := page.total })

/-- `GetFileMetadata::Execute` -/
def getFileMetadata (u : UseCasePorts) (caller : CallerContext) (recordId : String) :
    Action FileMetadataRecord :=
  audited u caller "readMetadata" recordId do
    authorizeCaller caller roleFileViewers
    let record ← Action.tryResult
      (← Action.ask (.metadata (.getById caller.partition recordId)))
    return (some recordId, record)

structure StorageInstructions where
  providerKey : String
  signedUrl : String
  fileSource : String
  createdBy : String
  expiresAtEpochSeconds : Int

/-- `GetStorageInstructions::Execute` -/
def getStorageInstructions (options : IssuerOptions) (u : UseCasePorts) (caller : CallerContext)
    (expiryTime : Option String) : Action StorageInstructions :=
  audited u caller "getStorageInstructions" "" do
    authorizeCaller caller roleDatasetEditors
    let location ← issueUploadLocation options caller.partition caller.userId none expiryTime
    return (some location.fileId,
      { providerKey := toUpper location.driver
        signedUrl := location.signedUrl
        fileSource := location.fileSource
        createdBy := caller.userId
        expiresAtEpochSeconds := location.expiresAtEpochSeconds })

structure RetrievalInstruction where
  datasetRegistryId : String
  signedUrl : String
  providerKey : String
  fileSource : String
  createdBy : String
  expiresAtEpochSeconds : Int

/-- The round of `GetRetrievalInstructions` for one id; what is missing is left out. -/
def retrievalInstruction (options : IssuerOptions) (caller : CallerContext)
    (expiryTime : Option String) (registryId : String) : Action (Option RetrievalInstruction) := do
  match ← Action.ask (.metadata (.getById caller.partition registryId)) with
  | .error _ => return none
  | .ok record =>
    if record.fileSource = "" then return none
    else
      match ← Action.ask (.locations (.findByFileSource caller.partition record.fileSource)) with
      | .error _ => return none
      | .ok location =>
        match ← Action.attempt
          (issueDownloadLocation options caller.partition location.fileId expiryTime) with
        | .error _ => return none
        | .ok signed =>
          let providerKey ← providerKeyOf location
          return some
            { datasetRegistryId := registryId
              signedUrl := signed.signedUrl
              providerKey
              fileSource := location.fileSource
              createdBy := caller.userId
              expiresAtEpochSeconds := signed.expiresAtEpochSeconds }

/-- `GetRetrievalInstructions::Execute` -/
def getRetrievalInstructions (options : IssuerOptions) (u : UseCasePorts) (caller : CallerContext)
    (datasetRegistryIds : List String) (expiryTime : Option String) :
    Action (List RetrievalInstruction) :=
  audited u caller "getRetrievalInstructions" "" do
    authorizeCaller caller roleDatasetViewers
    let out ← datasetRegistryIds.mapM (retrievalInstruction options caller expiryTime)
    return (some "", out.filterMap id)

structure SignedUrlEntry where
  signedUrl : String
  unsignedUrl : String
  kind : String := ""

structure SignedUrlResult where
  processed : Std.ExtTreeMap String SignedUrlEntry := ∅
  unprocessed : List String := []

def srnPrefix : String := "srn:file/"

/-- The round of `GetFileSignedUrl` for one SRN; `emplace` keeps an earlier entry. -/
def signSrn (options : IssuerOptions) (caller : CallerContext) (expiryTime : Option String)
    (out : SignedUrlResult) (srn : String) : Action SignedUrlResult :=
  let unprocessed := { out with unprocessed := out.unprocessed ++ [srn] }
  if !startsWith srn srnPrefix || srn == srnPrefix then pure unprocessed
  else do
    let fileId := String.ofList (srn.toList.drop srnPrefix.length)
    match ← Action.ask (.locations (.find caller.partition fileId)) with
    | .error _ => return unprocessed
    | .ok location =>
      match ← Action.attempt
        (issueDownloadLocation options caller.partition fileId expiryTime) with
      | .error _ => return unprocessed
      | .ok signed =>
        let record ← Action.ask (.metadata
          (.getLatestByFileSource caller.partition location.fileSource))
        let entry : SignedUrlEntry :=
          { signedUrl := signed.signedUrl
            unsignedUrl := signed.fileSource
            kind := match record with | .ok record => record.kind | .error _ => "" }
        return { out with processed := out.processed.insertIfNew srn entry }

/-- `GetFileSignedUrl::Execute` -/
def getFileSignedUrl (options : IssuerOptions) (u : UseCasePorts) (caller : CallerContext)
    (srns : List String) (expiryTime : Option String) : Action SignedUrlResult :=
  audited u caller "getFileSignedUrl" "" do
    authorizeCaller caller roleDeliveryViewer
    let out ← srns.foldlM (signSrn options caller expiryTime) {}
    return (some "", out)

/-- `RevokeUrl::Execute`, which requires no partition. -/
def revokeUrl (u : UseCasePorts) (caller : CallerContext) : Action Unit :=
  audited u caller "revokeUrl" "" do
    Action.tryResult
      (← Action.ask (.service (.authorize roleFileAdmin caller.partition caller.bearerToken)))
    return (some "", ())

end FileService.App
