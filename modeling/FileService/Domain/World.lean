import FileService.Domain.Ports
import FileService.Infra.BlobMemory
import FileService.Infra.LeaseMemory
import FileService.Infra.LocationMemory
import FileService.Interaction.Machine

/-!
# The world behind the ports

The state of the repositories and stores, the effect of every port call on it,
and the ways a call may fail: without effect, or with its effect but an error
reported. Time and the background renewal of leases are steps of their own.
-/
namespace FileService.Domain
open FileService.Common FileService.Interaction FileService.Infra

/-- The records of a remote storage service, by the id that the adapter derives. -/
structure RemoteStorageService where
  records : Std.ExtTreeMap String FileMetadataRecord := ∅

inductive MetadataBackend where
  | local
  | remote
deriving DecidableEq, Repr

/-- What is fixed while the service runs. -/
structure Deployment where
  backend : MetadataBackend := .local
  registry : List PartitionConfig := []
  store : String → StorageZone → StoreId
  sha256Hex : Bytes → String

/-- A started lease renewer. `dueAtSteadyMillis` is the time its wait ends. -/
structure Renewer where
  partition : String
  leaseKey : String
  instanceId : String
  ttlMillis : Int
  renewIntervalMillis : Int
  dueAtSteadyMillis : Int
  lastError : Option Error := none
  stopped : Bool := false

structure World where
  metadata : InMemoryMetadataRepository := {}
  remote : RemoteStorageService := {}
  locations : InMemoryLocationRepository := {}
  leases : InMemoryLeaseRepository := {}
  stores : StoreId → InMemoryBlobStore := fun _ => {}
  renewers : List Renewer := []
  nowMillis : Int := 0
  steadyMillis : Int := 0
  drawn : List String := []
  running : List String := []

namespace World

def nowSeconds (w : World) : Int := w.nowMillis.tdiv 1000

def utf8 (s : String) : Bytes := s.toUTF8.toList

/-- `DeriveRemoteRecordId`: the record id of a file source at the remote service. -/
def deriveRemoteRecordId (sha256Hex : Bytes → String) (partition fileSource : String) : String :=
  let digest := (sha256Hex (utf8 partition ++ 0 :: utf8 fileSource)).toList
  let group := fun a b => String.ofList ((digest.drop a).take (b - a))
  partition ++ ":dataset--File.Generic:" ++ group 0 8 ++ "-" ++ group 8 12 ++ "-" ++
    group 12 16 ++ "-" ++ group 16 20 ++ "-" ++ group 20 32

def noAtomicClaim (method : String) : Error :=
  err .unimplemented
    ("远端 Storage Service 元数据仓储不支持原子领取（capabilities().atomic_claim=false）：" ++ method)

/-- The remote adapter: an upsert by derived id, and reads by id. -/
def remoteCall (sha256Hex : Bytes → String) (remote : RemoteStorageService) :
    (call : MetadataCall) → Result call.Value × RemoteStorageService
  | .create partition record =>
    if record.fileSource = "" then
      (.error (err .invalidArgument
        "远端元数据仓储 Create 需要非空 FileSource（幂等键）：无法派生记录 id"), remote)
    else
      let id := deriveRemoteRecordId sha256Hex partition record.fileSource
      let version := match remote.records[id]? with
        | some old => old.version + 1
        | none => 1
      let stored := { record with id, version }
      (.ok stored, { records := remote.records.insert id stored })
  | .update _ record =>
    if record.id = "" then
      (.error (err .invalidArgument "远端元数据仓储 Update 需要非空记录 id"), remote)
    else
      let version := match remote.records[record.id]? with
        | some old => old.version + 1
        | none => 1
      let stored := { record with version }
      (.ok stored, { records := remote.records.insert record.id stored })
  | .getById _ recordId => (found recordId, remote)
  | .getLatestByFileSource partition fileSource =>
    (found (deriveRemoteRecordId sha256Hex partition fileSource), remote)
  | .delete _ recordId =>
    match remote.records[recordId]? with
    | some _ => (.ok (), { records := remote.records.erase recordId })
    | none => (.error (missing "delete"), remote)
  | .claimForWrite .. => (.error (noAtomicClaim "ClaimForWrite"), remote)
  | .markReady .. => (.error (noAtomicClaim "MarkReady"), remote)
  | .releaseClaim .. => (.error (noAtomicClaim "ReleaseClaim"), remote)
  | .reclaimStaleClaiming .. => (.error (noAtomicClaim "ReclaimStaleClaiming"), remote)
  | .list .. => (.error (err .unimplemented "远端 Storage Service 元数据仓储不实现 List"), remote)
where
  missing (op : String) : Error :=
    err .notFound ("远端 Storage Service 找不到目标记录（HTTP 404，op=" ++ op ++ "）。")
  found (recordId : String) : Result FileMetadataRecord :=
    match remote.records[recordId]? with
    | some record => .ok record
    | none => .error (missing "get")

def localCall (now : Int) (repo : InMemoryMetadataRepository) :
    (call : MetadataCall) → Result call.Value × InMemoryMetadataRepository
  | .create partition record => repo.create now partition record
  | .claimForWrite partition record => repo.claimForWrite now partition record
  | .markReady partition recordId version record => repo.markReady partition recordId version record
  | .releaseClaim partition recordId version => repo.releaseClaim partition recordId version
  | .reclaimStaleClaiming partition olderThan limit sources =>
    repo.reclaimStaleClaiming partition olderThan limit sources
  | .getById partition recordId => (repo.getById partition recordId, repo)
  | .getLatestByFileSource partition fileSource =>
    (repo.getLatestByFileSource partition fileSource, repo)
  | .update partition record => repo.update now partition record
  | .delete partition recordId => repo.delete partition recordId
  | .list partition query => (repo.list partition query, repo)

def locationCall (repo : InMemoryLocationRepository) :
    (call : LocationCall) → Result call.Value × InMemoryLocationRepository
  | .save partition location => repo.save partition location
  | .find partition fileId => (repo.find partition fileId, repo)
  | .updateSignedUrl partition fileId signedUrl updatedAt =>
    repo.updateSignedUrl partition fileId signedUrl updatedAt
  | .delete partition fileId => repo.delete partition fileId
  | .findByFileSource partition fileSource => (repo.findByFileSource partition fileSource, repo)
  | .list partition query => (repo.list partition query, repo)

def leaseCall (nowMillis : Int) (repo : InMemoryLeaseRepository) :
    (call : LeaseCall) → Result call.Value × InMemoryLeaseRepository
  | .acquire partition fileId owner ttl => repo.acquire nowMillis partition fileId owner ttl
  | .renew partition fileId owner ttl => repo.renew nowMillis partition fileId owner ttl
  | .release partition fileId owner => repo.release partition fileId owner
  | .claimExpired partition limit claimant => repo.claimExpired nowMillis partition limit claimant

def blobCall (sha256Hex : Bytes → String) (nowSeconds : Int) (store : InMemoryBlobStore) :
    (call : BlobCall) → Result call.Value × InMemoryBlobStore
  | .ensureContainer container => store.ensureContainer container
  | .presignPut .. => (InMemoryBlobStore.presign, store)
  | .presignGet .. => (InMemoryBlobStore.presign, store)
  | .put ref data options => store.put sha256Hex nowSeconds ref data options
  | .get ref range => (store.get ref range, store)
  | .stat ref => (store.stat ref, store)
  | .remove ref => store.remove ref
  | .copy source target => store.copy nowSeconds source target
  | .list container pre token limit => (store.list container pre token limit, store)
  | .removeTempFiles container olderThan dryRun => store.removeTempFiles container olderThan dryRun

def serviceCall : (call : ServiceCall) → Result call.Value
  | .encodeUrl token baseUrl => .ok (baseUrl ++ token.container ++ "/" ++ token.objectKey)
  | .authorize .. => .ok ()
  | .authorizeAny .. => .ok ()
  | .validateLegal .. => .ok ()
  | .validateSchema .. => .ok ()
  | .publishStatusChanged .. => .ok ()
  | .publishDatasetDetails .. => .ok ()
  | .recordAudit .. => .ok ()

def startRenewer (w : World) (partition leaseKey instanceId : String)
    (ttlMillis renewIntervalMillis : Int) : Renewer :=
  let renewIntervalMillis := if renewIntervalMillis ≤ 0 then 1000 else renewIntervalMillis
  { partition, leaseKey, instanceId
    ttlMillis := if ttlMillis ≤ 0 then 1000 else ttlMillis
    renewIntervalMillis
    dueAtSteadyMillis := w.steadyMillis + renewIntervalMillis }

def renewerCall (w : World) : (call : RenewerCall) → call.Value × List Renewer
  | .start partition leaseKey instanceId ttl interval =>
    (w.renewers.length, w.renewers ++ [w.startRenewer partition leaseKey instanceId ttl interval])
  | .failed handle =>
    (match w.renewers[handle]? with
      | some renewer => renewer.lastError.isSome
      | none => false, w.renewers)
  | .stop handle => ((), w.renewers.modify handle fun renewer => { renewer with stopped := true })

def runMutexCall (running : List String) : (call : RunMutexCall) → call.Value × List String
  | .tryLock instanceId =>
    if instanceId ∈ running then (false, running) else (true, instanceId :: running)
  | .unlock instanceId => ((), running.erase instanceId)

def partitionConfig (registry : List PartitionConfig) (partition : String) :
    Result PartitionConfig :=
  match registry.find? (·.partition == partition) with
  | some config => .ok config
  | none => .error (err .notFound ("partition 未注册：" ++ partition))

/-- The reply and the effect of a call that succeeds or is refused by the port itself.
`uuid` is the identifier that the generator draws. -/
def apply (d : Deployment) (uuid : String) (w : World) : (op : Port) → op.Reply × World
  | .metadata call =>
    match d.backend with
    | .local =>
      let out := localCall w.nowSeconds w.metadata call
      (out.1, { w with metadata := out.2 })
    | .remote =>
      let out := remoteCall d.sha256Hex w.remote call
      (out.1, { w with remote := out.2 })
  | .metadataCapabilities =>
    (match d.backend with
      | .local => { atomicClaim := true, backendName := "local" }
      | .remote => { atomicClaim := false, backendName := "remote" }, w)
  | .locations call =>
    let out := locationCall w.locations call
    (out.1, { w with locations := out.2 })
  | .leases call =>
    let out := leaseCall w.nowMillis w.leases call
    (out.1, { w with leases := out.2 })
  | .forPartition partition zone => (.ok (d.store partition zone), w)
  | .blobs store call =>
    let out := blobCall d.sha256Hex w.nowSeconds (w.stores store) call
    (out.1, { w with stores := Function.update w.stores store out.2 })
  | .blobCapabilities _ => (InMemoryBlobStore.capabilities, w)
  | .partitionConfig partition => (partitionConfig d.registry partition, w)
  | .service call => (serviceCall call, w)
  | .renewer call =>
    let out := w.renewerCall call
    (out.1, { w with renewers := out.2 })
  | .runMutex call =>
    let out := runMutexCall w.running call
    (out.1, { w with running := out.2 })
  | .nowEpochSeconds => (w.nowSeconds, w)
  | .nowEpochMillis => (w.nowMillis, w)
  | .nowSteadyMillis => (w.steadyMillis, w)
  | .sleepFor millis =>
    ((), { w with nowMillis := w.nowMillis + millis, steadyMillis := w.steadyMillis + millis })
  | .newUuidNoDash => (uuid, { w with drawn := uuid :: w.drawn })

/-- The generator never draws an identifier again, nor one that names a location. -/
def Fresh (w : World) (uuid : String) : Prop :=
  uuid ≠ "" ∧ uuid ∉ w.drawn ∧ ∀ partition, w.locations.byFileId partition uuid = none

/-- Which calls may fail in a run: not at all, only without effect, or in any way. -/
structure Faults where
  lost : Port → Prop
  unacknowledged : Port → Prop

def Faults.none : Faults := ⟨fun _ => False, fun _ => False⟩
def Faults.lostOnly : Faults := ⟨fun _ => True, fun _ => False⟩
def Faults.any : Faults := ⟨fun _ => True, fun _ => True⟩

def isClaimRelease : Port → Bool
  | .metadata (.releaseClaim ..) => true
  | _ => false

/-- Every call but the release of a claim may fail, in any way. -/
def Faults.butRelease : Faults :=
  ⟨fun op => isClaimRelease op = false, fun op => isClaimRelease op = false⟩

inductive Exec (d : Deployment) (faults : Faults) (w : World) :
    (op : Port) → op.Reply → World → Prop
  | done {op : Port} (uuid : String) (hfresh : op = .newUuidNoDash → w.Fresh uuid) :
      Exec d faults w op (w.apply d uuid op).1 (w.apply d uuid op).2
  | lost {op : Port} {e : Error} {r : op.Reply} (hfault : faults.lost op)
      (hr : op.failed e = some r) : Exec d faults w op r w
  | unacknowledged {op : Port} {e : Error} {r : op.Reply} (hfault : faults.unacknowledged op)
      (hr : op.failed e = some r) : Exec d faults w op r (w.apply d "" op).2
  /-- The thread of a renewer cannot be created. -/
  | noThread {p k i : String} {ttl interval : Int} {e : Error}
      (hfault : faults.lost (.renewer (.start p k i ttl interval))) :
      Exec d faults w (.renewer (.start p k i ttl interval)) w.renewers.length
        { w with renewers := w.renewers ++
          [{ w.startRenewer p k i ttl interval with lastError := some e, stopped := true }] }

def renewCall (r : Renewer) : LeaseCall :=
  .renew r.partition r.leaseKey r.instanceId r.ttlMillis

/-- One round of `LeaseRenewer::Loop`: the outcome is kept, and the next wait begins. -/
def afterRenewal (w : World) (handle : Nat) (renewer : Renewer) (reply : Result Unit)
    (leases : InMemoryLeaseRepository) : World :=
  { w with
    leases
    renewers := w.renewers.set handle
      { renewer with
        lastError := match reply with | .ok _ => none | .error e => some e
        dueAtSteadyMillis := w.steadyMillis + renewer.renewIntervalMillis } }

def renewed (w : World) (r : Renewer) : Result Unit × InMemoryLeaseRepository :=
  w.leases.renew w.nowMillis r.partition r.leaseKey r.instanceId r.ttlMillis

/-- The renewer with this handle runs and its wait is over. -/
def Due (w : World) (handle : Nat) (renewer : Renewer) : Prop :=
  w.renewers[handle]? = some renewer ∧ renewer.stopped = false ∧
    renewer.dueAtSteadyMillis ≤ w.steadyMillis

/-- Time passes; a renewer whose wait is over renews its lease. -/
inductive Tick (faults : Faults) (w : World) : World → Prop
  | clock (dt steady : Nat) :
      Tick faults w
        { w with nowMillis := w.nowMillis + dt, steadyMillis := w.steadyMillis + steady }
  | renew {handle : Nat} {renewer : Renewer} (hdue : w.Due handle renewer) :
      Tick faults w (w.afterRenewal handle renewer (w.renewed renewer).1 (w.renewed renewer).2)
  | renewLost {handle : Nat} {renewer : Renewer} {e : Error} (hdue : w.Due handle renewer)
      (hfault : faults.lost (.leases (renewCall renewer))) :
      Tick faults w (w.afterRenewal handle renewer (.error e) w.leases)
  | renewUnacknowledged {handle : Nat} {renewer : Renewer} {e : Error}
      (hdue : w.Due handle renewer)
      (hfault : faults.unacknowledged (.leases (renewCall renewer))) :
      Tick faults w (w.afterRenewal handle renewer (.error e) (w.renewed renewer).2)

end World

/-- The machine that runs use cases on a deployment. -/
def serviceMachine (d : Deployment) (faults : World.Faults) : Machine ports World where
  exec := World.Exec d faults
  env := World.Tick faults

end FileService.Domain
