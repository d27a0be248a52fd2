import FileService.App.Support

/-!
# Registering an uploaded file and deleting it

`CreateFileMetadata::Execute`: the checks, the claim of the file source, the
lease, the copy to the persistent zone, the marking of the record and what
follows it. Repositories without an atomic claim go the same way without claim
and lease.
-/
namespace FileService.App
open FileService.Common FileService.Domain FileService.Interaction

/-- What the local lambdas of `Execute` capture. `claim` is the claimed version, absent when
the repository has no atomic claim. -/
structure CreateJob where
  u : UseCasePorts
  caller : CallerContext
  out : FileMetadataRecord
  claim : Option Int

namespace CreateJob

def partition (job : CreateJob) : String := job.caller.partition
def fileSource (job : CreateJob) : String := job.out.fileSource

/-- `abort_create`: first the object, then the claim. -/
def abortCreate (job : CreateJob) (rollbackRef : Option ObjectRef) : Action Unit := do
  match rollbackRef with
  | none => pure ()
  | some ref => rollbackCreatedObject job.u job.caller ref job.fileSource job.out.id
  match job.claim with
  | none => pure ()
  | some version =>
    match ← Action.ask (.metadata (.releaseClaim job.partition job.out.id version)) with
    | .ok _ => pure ()
    | .error _ => recordFailure job.u "createMetadataClaimReleaseFailure" job.caller job.out.id

/-- Abort, then return an error. -/
def abortWith {α : Type} (job : CreateJob) (rollbackRef : Option ObjectRef) (e : Error) :
    Action α := do
  job.abortCreate rollbackRef
  Action.fail e

/-- `abort_if_lease_lost` -/
def abortIfLeaseLost (job : CreateJob) (renewer : Option Nat) (target : ObjectRef) :
    Action Unit := do
  match renewer with
  | none => pure ()
  | some handle =>
    if ← Action.ask (.renewer (.failed handle)) then
      job.abortWith (some target)
        (err .unavailable "在途租约续租失败，已回滚复制（fail-closed，防止 GC 回收在途对象）")

/-- Step 6 on a staging location: copy, or find that a record exists already. -/
def copyToPersistent (job : CreateJob) (location : FileLocation) (source target : ObjectRef) :
    Action (String ⊕ ObjectStat) := do
  match ← Action.attempt
    (copyBetweenZones job.partition source target location.zone .persistent) with
  | .ok stat => return .inr stat
  | .error e =>
    match ← Action.ask (.metadata (.getLatestByFileSource job.partition job.fileSource)) with
    | .ok existing =>
      match job.claim with
      | none => pure ()
      | some version =>
        let _ ← Action.ask (.metadata (.releaseClaim job.partition job.out.id version))
      return .inl (← returnExistingRecord job.u job.caller existing)
    | .error _ =>
      job.abortWith (some target) (err .badGateway ("复制到 persistent 失败：" ++ e.message))

/-- Step 6 on a location that was moved before: the persistent object is reused. -/
def reusePersistent (job : CreateJob) (target : ObjectRef) : Action ObjectStat := do
  match ← Action.ask (.forPartition job.partition .persistent) with
  | .error e =>
    job.abortWith (some target) (err .badGateway ("无法解析 persistent 存储：" ++ e.message))
  | .ok store =>
    let missing := err .badGateway "persistent 对象缺失（位置记录已迁移但对象不存在）"
    match ← Action.ask (.blobs store (.stat target)) with
    | .error _ => job.abortWith (some target) missing
    | .ok stat => if stat.exists then return stat else job.abortWith (some target) missing

def obtainPersistent (job : CreateJob) (location : FileLocation) (source target : ObjectRef) :
    Action (String ⊕ ObjectStat) := do
  if location.zone = .staging then job.copyToPersistent location source target
  else return .inr (← job.reusePersistent target)

/-- The record with the checksum of the persistent object. -/
def withChecksum (out : FileMetadataRecord) (checksum algorithm : String) : FileMetadataRecord :=
  if checksum = "" then out
  else
    let algorithm := if algorithm = "" then "SHA256" else algorithm
    let info := { out.data.datasetProperties.fileSourceInfo with
      checksum := some checksum, checksumAlgorithm := some algorithm }
    { out with data := { out.data with
      datasetProperties := { out.data.datasetProperties with fileSourceInfo := info }
      checksum := some checksum
      checksumAlgorithm := some algorithm } }

/-- Step 7: the native checksum, or one computed from the persistent object. -/
def checksummed (job : CreateJob) (target : ObjectRef) (stat : ObjectStat) :
    Action FileMetadataRecord := do
  let computed : Action FileMetadataRecord := do
    match ← Action.attempt (computeChecksumStreaming job.u job.partition target .persistent) with
    | .ok checksum => return withChecksum job.out checksum (canonicalChecksumName .sha256)
    | .error e =>
      job.abortWith (some target) (err .badGateway ("计算校验和失败：" ++ e.message))
  match parseChecksumAlgorithm stat.checksumAlgorithm with
  | some algorithm =>
    if isHexDigestOf stat.checksum algorithm then
      return withChecksum job.out stat.checksum (canonicalChecksumName algorithm)
    else computed
  | none => computed

def keepsKind (kind : ErrorKind) : Bool :=
  kind = .unavailable || kind = .unauthenticated || kind = .permissionDenied || kind = .notFound

/-- Steps 8 and 9: mark the claimed version ready, or write the record at the remote service. -/
def storeRecord (job : CreateJob) (out : FileMetadataRecord) (target : ObjectRef) :
    Action FileMetadataRecord := do
  match job.claim with
  | some version =>
    match ← Action.ask (.metadata (.markReady job.partition job.out.id version out)) with
    | .ok created => return created
    | .error e => job.abortWith (some target) (err .internal ("写入元数据记录失败：" ++ e.message))
  | none =>
    match ← Action.ask (.metadata (.create job.partition out)) with
    | .ok created => return created
    | .error e =>
      job.abortWith (some target) (err (if keepsKind e.kind then e.kind else .badGateway)
        ("远端元数据记录写入失败：" ++ e.message))

/-- How the part under the lease ends: with a record found, or one created. -/
inductive Registration where
  | existing (recordId : String)
  | created (record : FileMetadataRecord) (location : FileLocation) (source target : ObjectRef)

/-- Steps 5 to 9. -/
def register (job : CreateJob) (renewer : Option Nat) : Action Registration := do
  if 0 < job.u.claimHoldMillis then Action.ask (.sleepFor job.u.claimHoldMillis)
  match ← Action.ask (.locations (.findByFileSource job.partition job.fileSource)) with
  | .error _ =>
    job.abortWith none (err .invalidSourcePath (invalidSourcePathMessage job.fileSource))
  | .ok location =>
    -- these two returns leave the claim behind
    let source ← objectRefFromLocation location
    let container ← Action.tryResult (← containerFor job.partition .persistent)
    let target : ObjectRef := { container, key := source.key }
    match ← job.obtainPersistent location source target with
    | .inl recordId => return .existing recordId
    | .inr stat =>
      job.abortIfLeaseLost renewer target
      let out ← job.checksummed target stat
      job.abortIfLeaseLost renewer target
      let record ← job.storeRecord out target
      return .created record location source target

/-- `register` from the lookup of the location on. -/
def registerFound (job : CreateJob) (renewer : Option Nat) : Action Registration := do
  match ← Action.ask (.locations (.findByFileSource job.partition job.fileSource)) with
  | .error _ =>
    job.abortWith none (err .invalidSourcePath (invalidSourcePathMessage job.fileSource))
  | .ok location =>
    let source ← objectRefFromLocation location
    let container ← Action.tryResult (← containerFor job.partition .persistent)
    let target : ObjectRef := { container, key := source.key }
    match ← job.obtainPersistent location source target with
    | .inl recordId => return .existing recordId
    | .inr stat =>
      job.abortIfLeaseLost renewer target
      let out ← job.checksummed target stat
      job.abortIfLeaseLost renewer target
      let record ← job.storeRecord out target
      return .created record location source target

theorem register_eq (job : CreateJob) (renewer : Option Nat) :
    job.register renewer =
      if 0 < job.u.claimHoldMillis then
        Action.ask (.sleepFor job.u.claimHoldMillis) >>= fun _ => job.registerFound renewer
      else job.registerFound renewer := by
  unfold register registerFound
  split <;> rfl

def registerLeased (job : CreateJob) (renewer : Nat) : Action Registration := do
  if ← Action.ask (.renewer (.failed renewer)) then
    job.abortWith none (err .unavailable "在途租约续租不可用，拒绝复制（fail-closed）")
  else job.register (some renewer)

/-- Step 4e around steps 5 to 9: the lease is released on every way out. -/
def registerUnderLease (job : CreateJob) : Action Registration :=
  if job.claim.isSome && leaseEnabled job.u then do
    match ← Action.attempt (ensureLeaseOwnership job.u job.caller job.fileSource) with
    | .error e => job.abortWith none e
    | .ok _ =>
      let renewer ← Action.ask (.renewer (.start job.partition job.fileSource job.u.instanceId
        (leaseTtlMillis job.u) (job.u.leaseRenewIntervalSeconds * 1000)))
      (job.registerLeased renewer).destructing
        (releaseLease job.u job.caller job.fileSource job.out.id renewer)
  else job.register none

/-- The location record after the migration. -/
def migrated (location : FileLocation) (target : ObjectRef) (userId : String)
    (nowSeconds : Int) : FileLocation :=
  { location with
    zone := .persistent
    extra := (location.extra.set extraContainer (.string target.container)).set extraObjectKey
      (.string target.key)
    userId
    updatedAtEpochSeconds := nowSeconds }

/-- Step 11: remove the staging object; a failure is audited only. -/
def removeStaging (job : CreateJob) (recordId : String) (source : ObjectRef) : Action Unit := do
  match ← Action.ask (.forPartition job.partition .staging) with
  | .error _ => pure ()
  | .ok store =>
    match ← Action.ask (.blobs store (.remove source)) with
    | .ok _ => pure ()
    | .error _ => recordFailure job.u "createMetadataStagingCleanupFailure" job.caller recordId

/-- Steps 10 and 11. -/
def publishCreated (job : CreateJob) (record : FileMetadataRecord) (location : FileLocation)
    (source target : ObjectRef) : Action String := do
  publishStatus job.caller "SUCCESS" record.version record.id
  publishDatasetDetails job.caller record.id record.version
  let now ← Action.ask .nowEpochSeconds
  let _ ← Action.ask (.locations (.save job.partition
    (migrated location target job.caller.userId now)))
  if location.zone = .staging then job.removeStaging record.id source
  return record.id

/-- Everything after the claim. -/
def complete (job : CreateJob) : Action (Option String × String) := do
  match ← job.registerUnderLease with
  | .existing recordId => return (none, recordId)
  | .created record location source target =>
    let recordId ← job.publishCreated record location source target
    return (some recordId, recordId)

end CreateJob

/-- The error of the first validation issue. -/
def validationError (issue : ValidationIssue) : Error :=
  let kind :=
    if issue.message = "FileSource can not be empty" then .fileSourceEmpty
    else if Text.startsWith issue.message "Invalid source file path to copy from " then
      .invalidSourcePath
    else .invalidArgument
  err kind issue.message

/-- Steps 1 to 3 of `Execute`. -/
def checkRequest (caller : CallerContext) (record : FileMetadataRecord) : Action Unit := do
  authorizeCaller caller roleFileEditors
  publishStatus caller "IN_PROGRESS" 0 ""
  let _ ← Action.tryResult (validateKind record.kind)
  match validateMetadataRecord record with
  | issue :: _ => Action.fail (validationError issue)
  | [] => pure ()
  if record.fileSource = "" then
    Action.fail (err .fileSourceEmpty "FileSource can not be empty")
  Action.tryResult
    (← Action.ask (.service (.validateLegal caller.partition record.legal.legaltags)))
  Action.tryResult (← Action.ask (.service (.validateSchema record.kind record)))

/-- The record that the service will store: its id is made from `uuid`. -/
def newRecord (caller : CallerContext) (record : FileMetadataRecord) (uuid : String) :
    FileMetadataRecord :=
  { record with id := caller.partition ++ ":dataset--File.Generic:" ++ uuid, version := 1 }

/-- Step 4d: claim the file source, or answer with the record that holds it. -/
def claimAndComplete (polls : Nat) (u : UseCasePorts) (caller : CallerContext)
    (out : FileMetadataRecord) : Action (Option String × String) := do
  let claim ← Action.tryResult
    (← Action.ask (.metadata (.claimForWrite caller.partition out)))
  if claim.claimed then
    CreateJob.complete { u, caller, out, claim := some claim.record.version }
  else
    match claim.state with
    | .ready => return (none, ← returnExistingRecord u caller claim.record)
    | .claiming => return (none, ← waitForExistingClaim polls u caller out.fileSource)
    | .deleted =>
      Action.fail (err .internal
        "元数据状态不一致：fileSource 已有非 ready/claiming 的活动记录，拒绝复制")

/-- `CreateFileMetadata::Execute` -/
def createFileMetadata (polls : Nat) (u : UseCasePorts) (caller : CallerContext)
    (record : FileMetadataRecord) : Action String :=
  audited u caller "createMetadata" record.fileSource do
    checkRequest caller record
    let uuid ← Action.ask .newUuidNoDash
    let out := newRecord caller record uuid
    match ← Action.ask (.metadata (.getLatestByFileSource caller.partition record.fileSource)) with
    | .ok existing => return (none, ← returnExistingRecord u caller existing)
    | .error _ =>
      let capabilities ← Action.ask .metadataCapabilities
      if capabilities.atomicClaim then claimAndComplete polls u caller out
      else CreateJob.complete { u, caller, out, claim := none }

/-! ## Deleting a registered file

`DeleteFileMetadata::Execute` removes the record first and then, as far as it
can, the object and the location record.
-/

/-- The object and the location record of a deleted record. -/
def deleteLocated (caller : CallerContext) (fileSource : String) : Action Unit := do
  match ← Action.ask (.locations (.findByFileSource caller.partition fileSource)) with
  | .error _ => pure ()
  | .ok location =>
    match ← Action.attempt (objectRefFromLocation location) with
    | .error _ => pure ()
    | .ok ref =>
      match ← Action.ask (.forPartition caller.partition location.zone) with
      | .error _ => pure ()
      | .ok store =>
        let _ ← Action.ask (.blobs store (.remove ref))
    let _ ← Action.ask (.locations (.delete caller.partition location.fileId))

/-- `DeleteFileMetadata::Execute` -/
def deleteFileMetadata (u : UseCasePorts) (caller : CallerContext) (recordId : String) :
    Action Unit :=
  audited u caller "deleteMetadata" recordId do
    authorizeCallerAny caller [roleFileEditors, roleFileAdmin]
    let record ← Action.tryResult
      (← Action.ask (.metadata (.getById caller.partition recordId)))
    Action.tryResult (← Action.ask (.metadata (.delete caller.partition recordId)))
    if record.fileSource ≠ "" then deleteLocated caller record.fileSource
    return (some recordId, ())

end FileService.App
