import FileService.App.CreateFileMetadata
import FileService.Protocols.Replies

/-!
# The protocol of a creation

The phases of `CreateFileMetadata::Execute` as the repositories and stores see
them: which claim it holds, which location it read, whether the target object
was written, and how it gives up. The use case is shown to keep to the protocol
on every path.
-/
namespace FileService.Protocols
open FileService.Common FileService.Domain FileService.Interaction FileService.App
open FileService.Infra

/-- What a creation works on: the record id it made, and the version it claimed, if any. -/
structure Holding where
  id : String
  version : Option Int

inductive CreatePhase where
  | start
  /-- An existing record was found; its id will be returned. -/
  | returning (id : String)
  | holding (job : Holding)
  | located (job : Holding) (location : FileLocation)
  /-- The target is known; `done` tells that it was written or found. -/
  | targeted (job : Holding) (location : FileLocation) (source target : ObjectRef) (done : Bool)
  /-- A lookup found no record, so that the target may be removed. -/
  | aborting (job : Holding) (target : ObjectRef)
  | closing (job : Holding)
  /-- A record was found after a failed copy; the claim is given up for it. -/
  | yielding (job : Holding) (id : String)
  | released
  /-- The persistent container has no valid name. -/
  | misplaced (job : Holding) (location : FileLocation)
  | ready (id : String) (location : FileLocation) (source target : ObjectRef)
  | saved (id : String) (location : FileLocation) (source target : ObjectRef)

namespace CreatePhase

/-- The phases in which a creation may return an error, or give its lease back. -/
def MayExit : CreatePhase → Prop
  | start | returning _ | released | misplaced .. | ready .. | saved .. => True
  | located job location => job.version = none ∨ ∀ ref, physicalRef location ≠ .ref ref
  | holding job | closing job | aborting job _ => job.version = none
  | targeted .. | yielding .. => False

/-- The phases in which a creation gives its claim up. -/
inductive GivesUp (job : Holding) : CreatePhase → Prop
  | holding : GivesUp job (holding job)
  | closing : GivesUp job (closing job)
  | aborting {target : ObjectRef} : GivesUp job (aborting job target)

/-- The phases in which a creation returns the id of a record. -/
inductive Returns (id : String) : CreatePhase → Prop
  | existing : Returns id (returning id)
  | created {location : FileLocation} {source target : ObjectRef} :
      Returns id (saved id location source target)

/-- How `Execute` may end. -/
def Ends (out : Except Exit String) (φ : CreatePhase) : Prop :=
  match out with
  | .ok id => φ.Returns id
  | .error _ => φ.MayExit

end CreatePhase

open CreatePhase

/-- The calls of a creation of the file source `fs` of partition `p`. -/
inductive CreateStep (d : Deployment) (p fs : String) : Protocol ports CreatePhase
  | idle {φ : CreatePhase} {op : Port} {r : op.Reply} (hop : Idle op) : CreateStep d p fs φ op r φ
  | found {record : FileMetadataRecord} :
      CreateStep d p fs start (.metadata (.getLatestByFileSource p fs)) (.ok record)
        (returning record.id)
  | unclaimed {r : MetadataCapabilities} {id : String} (hclaim : r.atomicClaim = false) :
      CreateStep d p fs start .metadataCapabilities r (holding ⟨id, none⟩)
  | claim {record : FileMetadataRecord} {r : MetadataClaim} (hfs : record.fileSource = fs)
      (hclaim : r.claimed = true) :
      CreateStep d p fs start (.metadata (.claimForWrite p record)) (.ok r)
        (holding ⟨record.id, some r.record.version⟩)
  | taken {record : FileMetadataRecord} {r : MetadataClaim} (hfs : record.fileSource = fs)
      (hclaim : r.claimed = false) (hready : r.state = .ready) :
      CreateStep d p fs start (.metadata (.claimForWrite p record)) (.ok r)
        (returning r.record.id)
  | refused {record : FileMetadataRecord} {r : Result MetadataClaim} (hfs : record.fileSource = fs)
      (hclaim : ∀ claim, r = .ok claim → claim.claimed = false) :
      CreateStep d p fs start (.metadata (.claimForWrite p record)) r start
  | locate {job : Holding} {location : FileLocation} :
      CreateStep d p fs (holding job) (.locations (.findByFileSource p fs)) (.ok location)
        (located job location)
  | unlocated {job : Holding} {e : Error} :
      CreateStep d p fs (holding job) (.locations (.findByFileSource p fs)) (.error e) (holding job)
  | aim {job : Holding} {location : FileLocation} {source : ObjectRef} {container : String}
      {r : Result PartitionConfig} (hsource : physicalRef location = .ref source)
      (hcontainer : containerOf p .persistent r = .ok container) :
      CreateStep d p fs (located job location) (.partitionConfig p) r
        (targeted job location source { container, key := source.key } false)
  | misplace {job : Holding} {location : FileLocation} {r : Result PartitionConfig} {e : Error}
      (hcontainer : containerOf p .persistent r = .error e) :
      CreateStep d p fs (located job location) (.partitionConfig p) r (misplaced job location)
  | copy {job : Holding} {location : FileLocation} {source target : ObjectRef} {done : Bool}
      {r : Result ObjectStat} (hzone : location.zone = .staging) (hdone : done = true → r.isOk) :
      CreateStep d p fs (targeted job location source target false)
        (.blobs (d.store p .persistent) (.copy source target)) r
        (targeted job location source target done)
  | put {job : Holding} {location : FileLocation} {source target : ObjectRef} {done : Bool}
      {data : Bytes} {r : Result Unit} (hzone : location.zone = .staging)
      (hdone : done = true → r.isOk) :
      CreateStep d p fs (targeted job location source target false)
        (.blobs (d.store p .persistent) (.put target data {})) r
        (targeted job location source target done)
  | reuse {job : Holding} {location : FileLocation} {source target : ObjectRef} {st : ObjectStat}
      (hzone : location.zone ≠ .staging) (hexists : st.exists = true) :
      CreateStep d p fs (targeted job location source target false)
        (.blobs (d.store p .persistent) (.stat target)) (.ok st)
        (targeted job location source target true)
  | yield {job : Holding} {location : FileLocation} {source target : ObjectRef} {done : Bool}
      {record : FileMetadataRecord} (hclaim : job.version ≠ none) :
      CreateStep d p fs (targeted job location source target done)
        (.metadata (.getLatestByFileSource p fs)) (.ok record) (yielding job record.id)
  | fallBack {job : Holding} {location : FileLocation} {source target : ObjectRef} {done : Bool}
      {record : FileMetadataRecord} (hclaim : job.version = none) :
      CreateStep d p fs (targeted job location source target done)
        (.metadata (.getLatestByFileSource p fs)) (.ok record) (returning record.id)
  | giveWay {job : Holding} {id : String} {version : Int} {r : Result Unit}
      (hversion : job.version = some version) :
      CreateStep d p fs (yielding job id) (.metadata (.releaseClaim p job.id version)) r
        (returning id)
  | keep {job : Holding} {location : FileLocation} {source target : ObjectRef} {done : Bool}
      {record : FileMetadataRecord} :
      CreateStep d p fs (targeted job location source target done)
        (.metadata (.getLatestByFileSource p fs)) (.ok record) (closing job)
  | abort {job : Holding} {location : FileLocation} {source target : ObjectRef} {done : Bool}
      {e : Error} :
      CreateStep d p fs (targeted job location source target done)
        (.metadata (.getLatestByFileSource p fs)) (.error e) (aborting job target)
  | remove {job : Holding} {target : ObjectRef} {r : Result Unit} :
      CreateStep d p fs (aborting job target)
        (.blobs (d.store p .persistent) (.remove target)) r (closing job)
  | release {φ : CreatePhase} {job : Holding} {version : Int} {r : Result Unit}
      (hφ : φ.GivesUp job) (hversion : job.version = some version) :
      CreateStep d p fs φ (.metadata (.releaseClaim p job.id version)) r released
  | mark {job : Holding} {location : FileLocation} {source target : ObjectRef} {version : Int}
      {record out : FileMetadataRecord} (hfs : record.fileSource = fs) (hid : record.id = job.id)
      (hversion : job.version = some version) (hout : out.id = job.id) :
      CreateStep d p fs (targeted job location source target true)
        (.metadata (.markReady p job.id version record)) (.ok out)
        (ready out.id location source target)
  | create {job : Holding} {location : FileLocation} {source target : ObjectRef}
      {record out : FileMetadataRecord} (hfs : record.fileSource = fs) (hid : record.id = job.id)
      (hversion : job.version = none) :
      CreateStep d p fs (targeted job location source target true)
        (.metadata (.create p record)) (.ok out) (ready out.id location source target)
  | markFailed {job : Holding} {location : FileLocation} {source target : ObjectRef}
      {version : Int} {record : FileMetadataRecord} {e : Error} (hfs : record.fileSource = fs)
      (hid : record.id = job.id) (hversion : job.version = some version) :
      CreateStep d p fs (targeted job location source target true)
        (.metadata (.markReady p job.id version record)) (.error e)
        (targeted job location source target true)
  | createFailed {job : Holding} {location : FileLocation} {source target : ObjectRef}
      {record : FileMetadataRecord} {e : Error} (hfs : record.fileSource = fs)
      (hid : record.id = job.id) (hversion : job.version = none) :
      CreateStep d p fs (targeted job location source target true)
        (.metadata (.create p record)) (.error e) (targeted job location source target true)
  | leaseRelease {φ : CreatePhase} {key instanceId : String} {r : Result Unit} (hφ : φ.MayExit) :
      CreateStep d p fs φ (.leases (.release p key instanceId)) r φ
  | save {id : String} {location : FileLocation} {source target : ObjectRef} {userId : String}
      {now : Int} {r : Result Unit} :
      CreateStep d p fs (ready id location source target)
        (.locations (.save p (CreateJob.migrated location target userId now))) r
        (saved id location source target)
  | cleanUp {id : String} {location : FileLocation} {source target : ObjectRef} {r : Result Unit}
      (hzone : location.zone = .staging) :
      CreateStep d p fs (saved id location source target)
        (.blobs (d.store p .staging) (.remove source)) r (saved id location source target)

theorem createStep_idles {d : Deployment} {p fs : String} : Idles (CreateStep d p fs) :=
  fun _ _ _ hop => .idle hop

end FileService.Protocols
