import FileService.Infra.MetadataMemory
import FileService.Interaction.Program

/-!
# The ports of the use cases

Every call that a use case or the garbage collector makes through a port is one
operation. A fallible port replies with a `Result`; its value type depends on
the call.
-/
namespace FileService.Domain
open FileService.Common FileService.Interaction FileService.Infra

/-- A physical store; several partitions and zones may resolve to one store. -/
abbrev StoreId := String

inductive MetadataCall where
  | create (partition : String) (record : FileMetadataRecord)
  | claimForWrite (partition : String) (record : FileMetadataRecord)
  | markReady (partition recordId : String) (version : Int) (record : FileMetadataRecord)
  | releaseClaim (partition recordId : String) (version : Int)
  | reclaimStaleClaiming (partition : String) (olderThanEpochSeconds limit : Int)
      (liveExpiredSources : List String)
  | getById (partition recordId : String)
  | getLatestByFileSource (partition fileSource : String)
  | update (partition : String) (record : FileMetadataRecord)
  | delete (partition recordId : String)
  | list (partition : String) (query : MetadataQuery)

abbrev MetadataCall.Value : MetadataCall → Type
  | .create .. => FileMetadataRecord
  | .claimForWrite .. => MetadataClaim
  | .markReady .. => FileMetadataRecord
  | .releaseClaim .. => Unit
  | .reclaimStaleClaiming .. => Int
  | .getById .. => FileMetadataRecord
  | .getLatestByFileSource .. => FileMetadataRecord
  | .update .. => FileMetadataRecord
  | .delete .. => Unit
  | .list .. => MetadataPage

inductive LocationCall where
  | save (partition : String) (location : FileLocation)
  | find (partition fileId : String)
  | updateSignedUrl (partition fileId signedUrl : String) (updatedAtEpochSeconds : Int)
  | delete (partition fileId : String)
  | findByFileSource (partition fileSource : String)
  | list (partition : String) (query : LocationQuery)

abbrev LocationCall.Value : LocationCall → Type
  | .save .. => Unit
  | .find .. => FileLocation
  | .updateSignedUrl .. => Unit
  | .delete .. => Unit
  | .findByFileSource .. => FileLocation
  | .list .. => LocationPage

inductive LeaseCall where
  | acquire (partition fileId ownerInstanceId : String) (ttlMillis : Int)
  | renew (partition fileId ownerInstanceId : String) (ttlMillis : Int)
  | release (partition fileId ownerInstanceId : String)
  | claimExpired (partition : String) (limit : Int) (claimantInstanceId : String)

abbrev LeaseCall.Value : LeaseCall → Type
  | .acquire .. => Lease
  | .renew .. => Unit
  | .release .. => Unit
  | .claimExpired .. => List Lease

inductive BlobCall where
  | ensureContainer (container : String)
  | presignPut (ref : ObjectRef) (options : PresignOptions)
  | presignGet (ref : ObjectRef) (options : PresignOptions)
  | put (ref : ObjectRef) (data : Bytes) (options : PutOptions)
  | get (ref : ObjectRef) (range : ByteRange)
  | stat (ref : ObjectRef)
  | remove (ref : ObjectRef)
  | copy (source target : ObjectRef)
  | list (container pre continuationToken : String) (limit : Int)
  | removeTempFiles (container : String) (olderThanEpochSeconds : Int) (dryRun : Bool)

abbrev BlobCall.Value : BlobCall → Type
  | .ensureContainer .. => Unit
  | .presignPut .. => SignedLocation
  | .presignGet .. => SignedLocation
  | .put .. => Unit
  | .get .. => Bytes
  | .stat .. => ObjectStat
  | .remove .. => Unit
  | .copy .. => ObjectStat
  | .list .. => ListPage
  | .removeTempFiles .. => TempSweepResult

/-- Calls to other services: what they do is not seen by any later call. -/
inductive ServiceCall where
  | authorize (role partition bearerToken : String)
  | authorizeAny (roles : List String) (partition bearerToken : String)
  | validateLegal (partition : String) (legalTags : List String)
  | validateSchema (kind : String) (record : FileMetadataRecord)
  | publishStatusChanged (topic : String) (event : StatusChangedEvent)
  | publishDatasetDetails (topic : String) (event : DatasetDetailsEvent)
  | recordAudit (event : AuditEvent)
  | encodeUrl (token : TransferToken) (baseUrl : String)

abbrev ServiceCall.Value : ServiceCall → Type
  | .encodeUrl .. => String
  | _ => Unit

/-- The lease renewer of a creation: a background thread with a handle. -/
inductive RenewerCall where
  | start (partition leaseKey instanceId : String) (ttlMillis renewIntervalMillis : Int)
  | failed (handle : Nat)
  | stop (handle : Nat)

abbrev RenewerCall.Value : RenewerCall → Type
  | .start .. => Nat
  | .failed .. => Bool
  | .stop .. => Unit

inductive RunMutexCall where
  | tryLock (instanceId : String)
  | unlock (instanceId : String)

abbrev RunMutexCall.Value : RunMutexCall → Type
  | .tryLock .. => Bool
  | .unlock .. => Unit

inductive Port where
  | metadata (call : MetadataCall)
  | metadataCapabilities
  | locations (call : LocationCall)
  | leases (call : LeaseCall)
  | forPartition (partition : String) (zone : StorageZone)
  | blobs (store : StoreId) (call : BlobCall)
  | blobCapabilities (store : StoreId)
  | partitionConfig (partition : String)
  | service (call : ServiceCall)
  | renewer (call : RenewerCall)
  | runMutex (call : RunMutexCall)
  | nowEpochSeconds
  | nowEpochMillis
  | nowSteadyMillis
  | sleepFor (millis : Int)
  | newUuidNoDash

abbrev Port.Reply : Port → Type
  | .metadata call => Result call.Value
  | .metadataCapabilities => MetadataCapabilities
  | .locations call => Result call.Value
  | .leases call => Result call.Value
  | .forPartition .. => Result StoreId
  | .blobs _ call => Result call.Value
  | .blobCapabilities _ => BlobCapabilities
  | .partitionConfig _ => Result PartitionConfig
  | .service call => Result call.Value
  | .renewer call => call.Value
  | .runMutex call => call.Value
  | .nowEpochSeconds => Int
  | .nowEpochMillis => Int
  | .nowSteadyMillis => Int
  | .sleepFor _ => Unit
  | .newUuidNoDash => String

/-- The reply of a port that reports an error, for the ports that can. -/
def Port.failed (e : Error) : (op : Port) → Option op.Reply
  | .metadata _ => some (.error e)
  | .locations _ => some (.error e)
  | .leases _ => some (.error e)
  | .forPartition .. => some (.error e)
  | .blobs .. => some (.error e)
  | .partitionConfig _ => some (.error e)
  | .service _ => some (.error e)
  | _ => none

abbrev ports : Interface where
  Op := Port
  Reply := Port.Reply

/-- The ways a use case leaves without a value: an error result, an exception that no
use case catches, or a loop that was given up after the allowed number of rounds. -/
inductive Exit where
  | error (e : Error)
  | exception (what : String)
  | diverged

abbrev Action (α : Type) := Interaction.Action ports Exit α

namespace Action
variable {α β : Type}

def ask (op : Port) : Action op.Reply := Interaction.Action.call (I := ports) op

def fail (e : Error) : Action α := throw (.error e)

/-- `FSS_TRY`: the value of a result, or return its error. -/
def tryResult : Result α → Action α
  | .ok a => pure a
  | .error e => fail e

def ofProgram (p : Program ports α) : Action α := Interaction.Action.lift p

/-- The result of a callee, for a caller that looks at it. Exceptions pass through. -/
def attempt (x : Action α) : Action (Result α) :=
  x.exitingWith fun out => .ret <| match out with
    | .ok a => .ok (.ok a)
    | .error (.error e) => .ok (.error e)
    | .error exit => .error exit

/-- A destructor: it runs on every way out of the body, and its own exits are lost. -/
def destructing (x : Action α) (destructor : Action Unit) : Action α :=
  x.exitingWith fun out => match out with
    | .error .diverged => .ret (.error .diverged)
    | out => destructor.run >>= fun _ => .ret out

end Action

/-- The use cases' view of the deployment: the constants of `UseCasePorts`. -/
structure UseCasePorts where
  sha256Hex : Bytes → String
  auditFailClosed : Bool := false
  leasesWired : Bool := false
  leasesEnabled : Bool := false
  leaseTtlSeconds : Int := 60
  leaseRenewIntervalSeconds : Int := 20
  instanceId : String := "local"
  claimHoldMillis : Int := 0

structure CallerContext where
  partition : String
  userId : String := ""
  bearerToken : String := ""
  correlationId : String := ""

end FileService.Domain
