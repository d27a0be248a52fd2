import FileService.Common.Text

/-!
# Storage types and location records

The values that the ports exchange: object references and their stats, listing
pages, location records, partition configurations, leases and events.
-/
namespace FileService.Domain
open FileService.Common

inductive StorageZone where
  | staging
  | persistent
deriving DecidableEq, Repr

inductive StorageDriver where
  | posix
  | s3
deriving DecidableEq, Repr

def storageDriverName : StorageDriver → String
  | .posix => "POSIX"
  | .s3 => "S3"

def parseStorageDriver (text : String) : Option StorageDriver :=
  if text = "POSIX" then some .posix else if text = "S3" then some .s3 else none

def storageZoneName : StorageZone → String
  | .staging => "STAGING"
  | .persistent => "PERSISTENT"

def parseStorageZone (text : String) : Option StorageZone :=
  if text = "STAGING" then some .staging
  else if text = "PERSISTENT" then some .persistent
  else none

/-- Object contents. -/
abbrev Bytes := List UInt8

structure ObjectRef where
  container : String
  key : String
  versionId : Option String := none
deriving DecidableEq, Repr

def ObjectRef.toText (ref : ObjectRef) : String :=
  ref.container ++ "/" ++ ref.key ++
    match ref.versionId with
    | some v => "@" ++ v
    | none => ""

structure ObjectStat where
  size : Int := 0
  contentType : String := ""
  checksum : String := ""
  checksumAlgorithm : String := ""
  lastModifiedEpochSeconds : Int := 0
  «exists» : Bool := false
deriving DecidableEq, Repr

structure ListEntry where
  key : String
  size : Int := 0
  lastModifiedEpochSeconds : Int := 0
deriving DecidableEq, Repr

structure ListPage where
  entries : List ListEntry := []
  continuationToken : String := ""
  truncated : Bool := false
deriving DecidableEq, Repr

structure ByteRange where
  offset : Nat := 0
  length : Nat := 0
deriving DecidableEq, Repr

def ByteRange.isWholeObject (range : ByteRange) : Bool := range.offset == 0 && range.length == 0

structure BlobCapabilities where
  nativePresign : Bool := false
  serverSideCopy : Bool := false
  rangeRead : Bool := false
  streamingPut : Bool := false
  recommendedPartSize : Nat := 0
  driverName : String := ""
deriving DecidableEq, Repr

structure PresignOptions where
  expiresInSeconds : Int := 3600
  contentType : String := ""
  fileName : String := ""
  method : String := ""
deriving DecidableEq, Repr

structure PutOptions where
  contentType : String := ""
  expectedChecksum : String := ""
  checksumAlgorithm : String := ""
  expectedSize : Int := -1
deriving DecidableEq, Repr

structure TempSweepResult where
  removed : Int := 0
  skippedTooYoung : Int := 0
  skippedUnknownMtime : Int := 0
deriving DecidableEq, Repr

structure SignedLocation where
  url : String := ""
  method : String := ""
  fileSource : String := ""
  expiresAtEpochSeconds : Int := 0
  requiredHeaders : List (String × String) := []
  native : Bool := false
deriving DecidableEq, Repr

structure FileLocation where
  fileId : String
  driver : StorageDriver := .posix
  zone : StorageZone := .staging
  fileSource : String
  userId : String := ""
  signedUrl : String := ""
  createdAtEpochSeconds : Int := 0
  updatedAtEpochSeconds : Int := 0
  extra : Json.Value := .object []

structure LocationQuery where
  userId : String := ""
  createdAfterEpochSeconds : Int := -1
  createdBeforeEpochSeconds : Int := -1
  limit : Int := 10
  offset : Int := 0
deriving DecidableEq, Repr

structure LocationPage where
  records : List FileLocation := []
  total : Int := 0

structure Lease where
  fileId : String
  ownerInstanceId : String
  fileSource : String := ""
  expiresAtEpochMillis : Int := 0
deriving DecidableEq, Repr

structure PartitionConfig where
  partition : String
  driver : StorageDriver := .posix
  posixRoot : String := ""
  s3BucketPrefix : String := ""
  s3Endpoint : String := ""
  s3Region : String := ""
  maxObjectBytes : Int := -1
  quotaBytes : Int := -1
  legalTagValidation : Bool := true
  schemaValidation : Bool := false
  stagingContainer : String := ""
  persistentContainer : String := ""
  storageDriver : String := ""
  extra : Json.Value := .object []

structure StatusChangedEvent where
  recordId : String
  partition : String
  status : String
  datasetSync : String := "DATASET_SYNC"
  version : Int := 0
deriving DecidableEq, Repr

structure DatasetDetailsEvent where
  partition : String
  correlationId : String
  datasetId : String
  datasetVersionId : String
  datasetType : String := "FILE"
  recordCount : Int := 1
  timestampMillis : Int := 0
deriving DecidableEq, Repr

structure AuditEvent where
  operation : String
  user : String
  partition : String
  objectId : String
  result : String
  epochMillis : Int
  correlationId : String
deriving DecidableEq, Repr

structure TransferToken where
  partition : String
  fileId : String
  container : String
  objectKey : String
  zone : StorageZone := .staging
  op : String
  expiresAtEpochSeconds : Int := 0
  keyId : String := ""
deriving DecidableEq, Repr

def roleFileViewers : String := "service.file.viewers"
def roleFileEditors : String := "service.file.editors"
def roleFileAdmin : String := "service.file.admin"

end FileService.Domain
