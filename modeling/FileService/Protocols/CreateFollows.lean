import FileService.Protocols.Create

/-!
# `CreateFileMetadata::Execute` keeps to its protocol

One lemma for each part of the use case, from the abort path outwards to the
whole of `Execute`.
-/
namespace FileService.Protocols
open FileService.Common FileService.Domain FileService.Interaction FileService.App
open FileService.Infra CreatePhase

/-- What the protocol knows of a running creation. -/
def holdingOf (job : CreateJob) : Holding := ⟨job.out.id, job.claim⟩

section Abort
variable {d : Deployment} {job : CreateJob} {φ : CreatePhase} {α : Type}
variable {location : FileLocation} {source target : ObjectRef} {done : Bool}

theorem mayExit_of_givesUp {h : Holding} (hφ : φ.GivesUp h) (hversion : h.version = none) :
    φ.MayExit := by
  cases hφ <;> exact hversion

/-- `RollbackCreatedObject` removes the target only after a lookup that found no record. -/
theorem follows_rollback {E : Exit → CreatePhase → Prop} :
    Action.Follows (replies d) (CreateStep d job.partition job.fileSource)
      (fun _ φ => φ.GivesUp (holdingOf job)) E
      (rollbackCreatedObject job.u job.caller target job.fileSource job.out.id)
      (targeted (holdingOf job) location source target done) := by
  have htail : ∀ φ : CreatePhase, φ.GivesUp (holdingOf job) →
      Action.Follows (replies d) (CreateStep d job.partition job.fileSource)
        (fun _ φ => φ.GivesUp (holdingOf job)) E
        (do publishStatus job.caller "FAILED" 0 job.out.id
            recordFailure job.u "createMetadataFailure" job.caller job.out.id) φ := by
    intro φ hφ
    refine follows_silent createStep_idles (idle_publishStatus ..) fun _ => ?_
    exact follows_idleAction createStep_idles (idle_recordFailure ..) (fun _ => hφ)
      fun _ => False.elim
  refine follows_ask fun r _ => ?_
  cases r with
  | ok record => exact ⟨_, .keep, htail _ .closing⟩
  | error e =>
    refine ⟨_, .abort, follows_idle createStep_idles ⟨trivial, id⟩ fun r hr => ?_⟩
    cases r with
    | error e => exact htail _ .aborting
    | ok store =>
      obtain rfl := hr store rfl
      exact follows_ask fun r _ => ⟨_, .remove, htail _ .closing⟩

/-- After the object, the claim: then the creation may return. -/
theorem follows_releaseOwn {E : Exit → CreatePhase → Prop} (hφ : φ.GivesUp (holdingOf job)) :
    Action.Follows (replies d) (CreateStep d job.partition job.fileSource)
      (fun _ φ => φ.MayExit) E (job.abortCreate none) φ := by
  unfold CreateJob.abortCreate
  cases hclaim : job.claim with
  | none => exact mayExit_of_givesUp hφ hclaim
  | some version =>
    refine follows_ask fun r _ => ⟨_, .release hφ hclaim, ?_⟩
    cases r with
    | ok a => trivial
    | error e =>
      exact follows_idleAction createStep_idles (idle_recordFailure ..) (fun _ => trivial)
        fun _ => False.elim

theorem abortCreate_some (target : ObjectRef) : job.abortCreate (some target) =
    (do rollbackCreatedObject job.u job.caller target job.fileSource job.out.id
        job.abortCreate none) := by
  simp [CreateJob.abortCreate]

variable {Q : α → CreatePhase → Prop}

theorem follows_abortNone (hφ : φ.GivesUp (holdingOf job)) (e : Error) :
    Action.Follows (replies d) (CreateStep d job.partition job.fileSource) Q (fun _ φ => φ.MayExit)
      (job.abortWith none e) φ :=
  Action.Follows.bind (follows_releaseOwn hφ) fun _ _ h => h

theorem follows_abortSome (e : Error) :
    Action.Follows (replies d) (CreateStep d job.partition job.fileSource) Q (fun _ φ => φ.MayExit)
      (job.abortWith (some target) e) (targeted (holdingOf job) location source target done) := by
  unfold CreateJob.abortWith
  rw [abortCreate_some, bind_assoc]
  exact Action.Follows.bind follows_rollback fun _ _ hφ => follows_abortNone hφ e

end Abort

section Objects
variable {d : Deployment} {job : CreateJob} {location : FileLocation} {source target : ObjectRef}

/-- The phases before and after the target was written. -/
abbrev aimed (job : CreateJob) (location : FileLocation) (source target : ObjectRef) (done : Bool) :
    CreatePhase :=
  targeted (holdingOf job) location source target done

/-- `CopyBetweenZones` out of the staging zone writes the target, whatever it returns. -/
theorem follows_copyBetweenZones (hzone : location.zone = .staging) :
    Action.Follows (replies d) (CreateStep d job.partition job.fileSource)
      (fun _ φ => φ = aimed job location source target true)
      (fun exit φ => (∃ e, exit = .error e) ∧ ∃ done, φ = aimed job location source target done)
      (copyBetweenZones job.partition source target location.zone .persistent)
      (aimed job location source target false) := by
  have hfails : ∀ (e : Error) (done : Bool), (∃ e', Exit.error e = .error e') ∧
      ∃ done', aimed job location source target done = aimed job location source target done' :=
    fun e done => ⟨⟨e, rfl⟩, done, rfl⟩
  unfold copyBetweenZones
  refine follows_idle createStep_idles ⟨trivial, id⟩ fun r hfrom =>
    follows_tryResult (fun fromStore _ => ?_) fun e _ => hfails e _
  refine follows_idle createStep_idles ⟨trivial, id⟩ fun r hto =>
    follows_tryResult (fun toStore hr => ?_) fun e _ => hfails e _
  obtain rfl := hto toStore hr
  refine follows_idle createStep_idles ⟨trivial, id⟩ fun r _ =>
    follows_tryResult (fun _ _ => ?_) fun e _ => hfails e _
  split
  · refine follows_ask fun r _ => ?_
    cases r with
    | ok stat => exact ⟨aimed job location source target true, .copy hzone fun _ => rfl, rfl⟩
    | error e => exact ⟨aimed job location source target false, .copy hzone nofun, hfails e _⟩
  · refine follows_idle createStep_idles ⟨trivial, id⟩ fun r _ =>
      follows_tryResult (fun stat _ => ?_) fun e _ => hfails e _
    refine follows_idle_bind createStep_idles
      (idle_readAll (X := fun exit => ∃ e, exit = .error e) (fun e => ⟨e, rfl⟩) ..)
      (fun data => ?_) fun exit hexit => ⟨hexit, _, rfl⟩
    refine follows_ask fun r _ => ?_
    cases r with
    | error e => exact ⟨aimed job location source target false, .put hzone nofun, hfails e _⟩
    | ok a =>
      refine ⟨aimed job location source target true, .put hzone fun _ => rfl, ?_⟩
      refine follows_idle createStep_idles ⟨trivial, id⟩ fun r _ => ?_
      cases r with
      | ok stat => exact rfl
      | error e => exact hfails e _

/-- `returnExistingRecord` in a phase that returns this record. -/
theorem follows_returnExisting {p fs : String} {u : UseCasePorts} {caller : CallerContext}
    {φ : CreatePhase} {Q : String → CreatePhase → Prop} {E : Exit → CreatePhase → Prop}
    {record : FileMetadataRecord} (hQ : Q record.id φ) (hE : ∀ e, E (.error e) φ) :
    Action.Follows (replies d) (CreateStep d p fs) Q E (returnExistingRecord u caller record) φ := by
  refine follows_silent createStep_idles (idle_publishStatus ..) fun _ => ?_
  refine follows_silent createStep_idles (idle_publishDatasetDetails ..) fun _ => ?_
  refine follows_idle_bind createStep_idles
    (idle_recordAudit (X := fun exit => ∃ e, exit = .error e) (fun e => ⟨e, rfl⟩) ..)
    (fun _ => hQ) ?_
  rintro exit ⟨e, rfl⟩
  exact hE e

/-- Where step 6 leads: to the id of a record found, or to a target that was written. -/
def Obtained (job : CreateJob) (location : FileLocation) (source target : ObjectRef) :
    String ⊕ ObjectStat → CreatePhase → Prop
  | .inl id, φ => φ = returning id
  | .inr _, φ => φ = aimed job location source target true

/-- What the attempt to copy has done; after a failure the target may have been written. -/
def CopyAttempted (job : CreateJob) (location : FileLocation) (source target : ObjectRef) :
    Result ObjectStat → CreatePhase → Prop
  | .ok _, φ => φ = aimed job location source target true
  | .error _, φ => ∃ done, φ = aimed job location source target done

theorem follows_copyToPersistent (hzone : location.zone = .staging) :
    Action.Follows (replies d) (CreateStep d job.partition job.fileSource)
      (Obtained job location source target) (fun _ φ => φ.MayExit)
      (job.copyToPersistent location source target) (aimed job location source target false) := by
  unfold CreateJob.copyToPersistent
  refine Action.Follows.bind (follows_attempt (Q := CopyAttempted job location source target)
    (E := fun _ φ => φ.MayExit) (Action.Follows.mono (follows_copyBetweenZones hzone) (fun _ _ h => h) ?_)) ?_
  · rintro _ φ ⟨⟨e, rfl⟩, hdone⟩
    exact hdone
  · rintro (e | stat) φ h
    · obtain ⟨done, rfl⟩ := h
      refine follows_ask fun r _ => ?_
      cases r with
      | error e' => exact ⟨aimed job location source target done, .idle ⟨trivial, id⟩,
          follows_abortSome _⟩
      | ok existing =>
        cases hclaim : job.claim with
        | none =>
          refine ⟨returning existing.id, .fallBack hclaim, ?_⟩
          exact Action.Follows.bind (follows_returnExisting (Q := fun id φ => φ = returning id)
            rfl fun _ => trivial) fun _ _ h => h
        | some version =>
          refine ⟨yielding (holdingOf job) existing.id, .yield (by simp [holdingOf, hclaim]), ?_⟩
          refine follows_ask fun r _ => ⟨returning existing.id, .giveWay hclaim, ?_⟩
          exact Action.Follows.bind (follows_returnExisting (Q := fun id φ => φ = returning id)
            rfl fun _ => trivial) fun _ _ h => h
    · subst h
      exact rfl

theorem follows_reusePersistent (hzone : location.zone ≠ .staging) :
    Action.Follows (replies d) (CreateStep d job.partition job.fileSource)
      (fun _ φ => φ = aimed job location source target true) (fun _ φ => φ.MayExit)
      (job.reusePersistent target) (aimed job location source target false) := by
  unfold CreateJob.reusePersistent
  refine follows_idle createStep_idles ⟨trivial, id⟩ fun r hr => ?_
  cases r with
  | error e => exact follows_abortSome _
  | ok store =>
    obtain rfl := hr store rfl
    refine follows_ask fun r _ => ?_
    cases r with
    | error e => exact ⟨aimed job location source target false, .idle ⟨trivial, id⟩,
        follows_abortSome _⟩
    | ok stat =>
      by_cases hexists : stat.exists = true
      · refine ⟨aimed job location source target true, .reuse hzone hexists, ?_⟩
        dsimp only
        rw [if_pos hexists]
        exact rfl
      · refine ⟨aimed job location source target false, .idle ⟨trivial, id⟩, ?_⟩
        dsimp only
        rw [if_neg hexists]
        exact follows_abortSome _

theorem follows_obtainPersistent :
    Action.Follows (replies d) (CreateStep d job.partition job.fileSource)
      (Obtained job location source target) (fun _ φ => φ.MayExit)
      (job.obtainPersistent location source target) (aimed job location source target false) := by
  unfold CreateJob.obtainPersistent
  by_cases hzone : location.zone = .staging
  · rw [if_pos hzone]
    exact follows_copyToPersistent hzone
  · rw [if_neg hzone]
    exact Action.Follows.bind (follows_reusePersistent hzone) fun _ _ h => h

end Objects

section Records
variable {d : Deployment} {job : CreateJob} {location : FileLocation} {source target : ObjectRef}

theorem follows_abortIfLeaseLost (renewer : Option Nat) :
    Action.Follows (replies d) (CreateStep d job.partition job.fileSource)
      (fun _ φ => φ = aimed job location source target true) (fun _ φ => φ.MayExit)
      (job.abortIfLeaseLost renewer target) (aimed job location source target true) := by
  cases renewer with
  | none => exact rfl
  | some handle =>
    refine follows_idle createStep_idles ⟨trivial, id⟩ fun lost _ => ?_
    cases lost with
    | true => exact follows_abortSome _
    | false => exact rfl

/-- A checksum changes neither the id nor the file source of a record. -/
theorem withChecksum_keeps (out : FileMetadataRecord) (checksum algorithm : String) :
    (CreateJob.withChecksum out checksum algorithm).id = out.id ∧
      (CreateJob.withChecksum out checksum algorithm).fileSource = out.fileSource := by
  unfold CreateJob.withChecksum
  split
  · exact ⟨rfl, rfl⟩
  · exact ⟨rfl, rfl⟩

/-- The record of the job, up to its checksum. -/
def Checksummed (job : CreateJob) (location : FileLocation) (source target : ObjectRef)
    (out : FileMetadataRecord) (φ : CreatePhase) : Prop :=
  out.id = job.out.id ∧ out.fileSource = job.fileSource ∧ φ = aimed job location source target true

theorem checksummed_withChecksum (checksum algorithm : String) :
    Checksummed job location source target (CreateJob.withChecksum job.out checksum algorithm)
      (aimed job location source target true) := by
  obtain ⟨hid, hfs⟩ := withChecksum_keeps job.out checksum algorithm
  exact ⟨hid, hfs, rfl⟩

theorem follows_computed : Action.Follows (replies d) (CreateStep d job.partition job.fileSource)
    (Checksummed job location source target) (fun _ φ => φ.MayExit)
    (do
      match ← Action.attempt (computeChecksumStreaming job.u job.partition target .persistent) with
      | .ok checksum =>
        return CreateJob.withChecksum job.out checksum (canonicalChecksumName .sha256)
      | .error e =>
        job.abortWith (some target) (err .badGateway ("计算校验和失败：" ++ e.message)))
    (aimed job location source target true) := by
  refine follows_silent createStep_idles (idle_attempt (idle_computeChecksumStreaming
    (X := fun exit => ∃ e, exit = .error e) (fun e => ⟨e, rfl⟩) ..) fun _ h => .inl h) fun r => ?_
  cases r with
  | ok checksum => exact checksummed_withChecksum _ _
  | error e => exact follows_abortSome _

theorem follows_checksummed (stat : ObjectStat) :
    Action.Follows (replies d) (CreateStep d job.partition job.fileSource)
      (Checksummed job location source target) (fun _ φ => φ.MayExit)
      (job.checksummed target stat) (aimed job location source target true) := by
  unfold CreateJob.checksummed
  dsimp only
  split
  · split
    · exact checksummed_withChecksum _ _
    · exact follows_computed
  · exact follows_computed

theorem follows_storeRecord {out : FileMetadataRecord} (hid : out.id = job.out.id)
    (hfs : out.fileSource = job.fileSource) :
    Action.Follows (replies d) (CreateStep d job.partition job.fileSource)
      (fun record φ => φ = ready record.id location source target) (fun _ φ => φ.MayExit)
      (job.storeRecord out target) (aimed job location source target true) := by
  unfold CreateJob.storeRecord
  cases hclaim : job.claim with
  | some version =>
    refine follows_ask fun r hr => ?_
    cases r with
    | ok created =>
      refine ⟨ready created.id location source target, .mark hfs hid hclaim ?_, rfl⟩
      rw [hr created rfl]
      exact rfl
    | error e =>
      exact ⟨aimed job location source target true, .markFailed hfs hid hclaim, follows_abortSome _⟩
  | none =>
    refine follows_ask fun r _ => ?_
    cases r with
    | ok created =>
      exact ⟨ready created.id location source target, .create hfs hid hclaim, rfl⟩
    | error e =>
      exact ⟨aimed job location source target true, .createFailed hfs hid hclaim,
        follows_abortSome _⟩

end Records

section Registration
variable {d : Deployment} {job : CreateJob}

/-- The phase in which the part under the lease leaves the rest. -/
def Registered : CreateJob.Registration → CreatePhase → Prop
  | .existing id, φ => φ = returning id
  | .created record location source target, φ => φ = ready record.id location source target

theorem mayExit_of_registered {registration : CreateJob.Registration} {φ : CreatePhase}
    (h : Registered registration φ) : φ.MayExit := by
  cases registration <;> (subst h; trivial)

/-- Steps 7 to 9, with the lease checked before and after the checksum. -/
theorem follows_afterCopy {location : FileLocation} {source target : ObjectRef}
    (renewer : Option Nat) (stat : ObjectStat) :
    Action.Follows (replies d) (CreateStep d job.partition job.fileSource) Registered
      (fun _ φ => φ.MayExit)
      (do
        job.abortIfLeaseLost renewer target
        let out ← job.checksummed target stat
        job.abortIfLeaseLost renewer target
        let record ← job.storeRecord out target
        return .created record location source target)
      (aimed job location source target true) := by
  refine Action.Follows.bind (follows_abortIfLeaseLost renewer) ?_
  rintro - _ rfl
  refine Action.Follows.bind (follows_checksummed stat) ?_
  rintro out _ ⟨hid, hfs, rfl⟩
  refine Action.Follows.bind (follows_abortIfLeaseLost renewer) ?_
  rintro - _ rfl
  refine Action.Follows.bind (follows_storeRecord hid hfs) ?_
  rintro record _ rfl
  exact rfl

theorem follows_registerFound (renewer : Option Nat) :
    Action.Follows (replies d) (CreateStep d job.partition job.fileSource) Registered
      (fun _ φ => φ.MayExit) (job.registerFound renewer) (holding (holdingOf job)) := by
  unfold CreateJob.registerFound
  refine follows_ask fun r _ => ?_
  cases r with
  | error e =>
    exact ⟨holding (holdingOf job), .unlocated, follows_abortNone .holding _⟩
  | ok location =>
    refine ⟨located (holdingOf job) location, .locate, ?_⟩
    dsimp only
    cases href : physicalRef location with
    | incomplete =>
      have hleak : ∀ ref, physicalRef location ≠ .ref ref := by simp [href]
      unfold objectRefFromLocation
      rw [href]
      exact .inr hleak
    | notText =>
      have hleak : ∀ ref, physicalRef location ≠ .ref ref := by simp [href]
      unfold objectRefFromLocation
      rw [href]
      exact .inr hleak
    | ref source =>
      unfold objectRefFromLocation
      rw [href]
      refine follows_ask fun r _ => ?_
      cases hcontainer : containerOf job.partition .persistent r with
      | error e =>
        exact ⟨misplaced (holdingOf job) location, .misplace hcontainer, trivial⟩
      | ok container =>
        refine ⟨_, .aim href hcontainer, follows_tryResult ?_ nofun⟩
        rintro _ ⟨⟩
        refine Action.Follows.bind follows_obtainPersistent ?_
        rintro (id | stat) φ rfl
        · exact rfl
        · exact follows_afterCopy renewer stat

theorem follows_register (renewer : Option Nat) :
    Action.Follows (replies d) (CreateStep d job.partition job.fileSource) Registered
      (fun _ φ => φ.MayExit) (job.register renewer) (holding (holdingOf job)) := by
  rw [CreateJob.register_eq]
  split
  · exact follows_idle createStep_idles ⟨trivial, id⟩ fun _ _ => follows_registerFound renewer
  · exact follows_registerFound renewer

theorem follows_registerLeased (renewer : Nat) :
    Action.Follows (replies d) (CreateStep d job.partition job.fileSource) Registered
      (fun _ φ => φ.MayExit) (job.registerLeased renewer) (holding (holdingOf job)) := by
  unfold CreateJob.registerLeased
  refine follows_idle createStep_idles ⟨trivial, id⟩ fun failed _ => ?_
  cases failed with
  | true => exact follows_abortNone .holding _
  | false => exact follows_register (some renewer)

/-- The lease is given back only where the creation may exit. -/
theorem follows_releaseLease {P : CreatePhase → Prop} {φ : CreatePhase} (renewer : Nat)
    (hφ : φ.MayExit) (hP : P φ) :
    Action.Follows (replies d) (CreateStep d job.partition job.fileSource)
      (fun _ => P) (fun _ => P)
      (releaseLease job.u job.caller job.fileSource job.out.id renewer) φ := by
  unfold releaseLease
  refine follows_idle createStep_idles ⟨trivial, id⟩ fun _ _ => ?_
  refine follows_ask fun r _ => ⟨φ, .leaseRelease hφ, ?_⟩
  cases r with
  | ok a => exact hP
  | error e =>
    exact follows_idleAction createStep_idles (idle_recordFailure ..) (fun _ => hP)
      fun _ => False.elim

theorem follows_registerUnderLease :
    Action.Follows (replies d) (CreateStep d job.partition job.fileSource) Registered
      (fun _ φ => φ.MayExit) job.registerUnderLease (holding (holdingOf job)) := by
  unfold CreateJob.registerUnderLease
  split
  · refine follows_silent createStep_idles (idle_attempt (idle_ensureLeaseOwnership
      (X := fun exit => ∃ e, exit = .error e) (fun e => ⟨e, rfl⟩) ..) fun _ h => .inl h) fun r => ?_
    cases r with
    | error e => exact follows_abortNone .holding e
    | ok a =>
      refine follows_idle createStep_idles ⟨trivial, id⟩ fun renewer _ => ?_
      refine follows_destructing (follows_registerLeased renewer) (fun a φ h => ?_)
        (fun exit φ h => follows_releaseLease renewer h h) fun _ h => h
      exact follows_releaseLease renewer (mayExit_of_registered h) h
  · exact follows_register none

theorem follows_removeStaging {location : FileLocation} {source target : ObjectRef} {id : String}
    {E : Exit → CreatePhase → Prop} (hzone : location.zone = .staging) :
    Action.Follows (replies d) (CreateStep d job.partition job.fileSource)
      (fun _ φ => φ = saved id location source target) E (job.removeStaging id source)
      (saved id location source target) := by
  unfold CreateJob.removeStaging
  refine follows_idle createStep_idles ⟨trivial, False.elim⟩ fun r hr => ?_
  cases r with
  | error e => exact rfl
  | ok store =>
    obtain rfl := hr store rfl
    refine follows_ask fun r _ => ⟨saved id location source target, .cleanUp hzone, ?_⟩
    cases r with
    | ok a => exact rfl
    | error e =>
      exact follows_idleAction createStep_idles (idle_recordFailure ..) (fun _ => rfl)
        fun _ => False.elim

theorem follows_publishCreated {record : FileMetadataRecord} {location : FileLocation}
    {source target : ObjectRef} {E : Exit → CreatePhase → Prop} :
    Action.Follows (replies d) (CreateStep d job.partition job.fileSource)
      (fun id φ => φ.Returns id) E (job.publishCreated record location source target)
      (ready record.id location source target) := by
  unfold CreateJob.publishCreated
  refine follows_silent createStep_idles (idle_publishStatus ..) fun _ => ?_
  refine follows_silent createStep_idles (idle_publishDatasetDetails ..) fun _ => ?_
  refine follows_idle createStep_idles ⟨trivial, id⟩ fun now _ => ?_
  refine follows_ask fun r _ => ⟨saved record.id location source target, .save, ?_⟩
  dsimp only
  split
  · rename_i hzone
    refine Action.Follows.bind (follows_removeStaging hzone) ?_
    rintro - _ rfl
    exact .created
  · exact .created

theorem follows_complete (job : CreateJob) :
    Action.Follows (replies d) (CreateStep d job.partition job.fileSource)
      (fun out φ => φ.Returns out.2) (fun _ φ => φ.MayExit) job.complete
      (holding (holdingOf job)) := by
  unfold CreateJob.complete
  refine Action.Follows.bind follows_registerUnderLease ?_
  rintro (id | ⟨record, location, source, target⟩) φ rfl
  · exact .existing
  · exact Action.Follows.bind follows_publishCreated fun _ _ h => h

end Registration

section Execute
variable {d : Deployment} {u : UseCasePorts} {caller : CallerContext} {fs : String}

theorem mayExit_of_returns {id : String} {φ : CreatePhase} (h : φ.Returns id) : φ.MayExit := by
  cases h <;> trivial

theorem idle_checkRequest (record : FileMetadataRecord) :
    IdleAction (fun _ => True) (checkRequest caller record) := by
  have hX : ∀ _ : Error, True := fun _ => trivial
  unfold checkRequest
  refine idle_bind (idle_authorizeCaller hX ..) fun _ => ?_
  refine idle_bind (idle_publishStatus ..) fun _ => ?_
  refine idle_bind (idle_tryResult hX _) fun _ => ?_
  extract_lets legal source
  have hlegal : ∀ x, IdleAction (fun _ => True) (legal x) := by
    intro x
    refine idle_ask ⟨trivial, id⟩ fun _ => idle_bind (idle_tryResult hX _) fun _ => ?_
    exact idle_ask ⟨trivial, id⟩ fun _ => idle_tryResult hX _
  have hsource : ∀ x, IdleAction (fun _ => True) (source x) := by
    intro x
    dsimp only [source]
    split
    · exact idle_throw trivial
    · exact hlegal ⟨⟩
  split
  · exact idle_throw trivial
  · exact hsource ⟨⟩

/-- The way of an existing record out of `Execute`: its id is returned. -/
theorem follows_existing {record : FileMetadataRecord} :
    Action.Follows (replies d) (CreateStep d caller.partition fs)
      (fun out φ => φ.Returns out.2 ∧ φ.MayExit) (fun _ φ => φ.MayExit)
      (do return (none, ← returnExistingRecord u caller record) : Action (Option String × String))
      (returning record.id) :=
  Action.Follows.bind (follows_returnExisting (Q := fun id φ => φ = returning id) rfl
    fun _ => trivial) fun id φ h => by
      subst h
      exact ⟨.existing, trivial⟩

theorem follows_pollExistingClaim (polls : Nat) (deadline : Int) :
    Action.Follows (replies d) (CreateStep d caller.partition fs)
      (fun id φ => φ = returning id) (fun _ φ => φ.MayExit)
      (pollExistingClaim u caller fs deadline polls) start := by
  induction polls with
  | zero => trivial
  | succ polls ih =>
    unfold pollExistingClaim
    refine follows_ask fun r _ => ?_
    cases r with
    | ok existing =>
      exact ⟨returning existing.id, .found,
        follows_returnExisting rfl fun _ => trivial⟩
    | error e =>
      refine ⟨start, .idle ⟨trivial, id⟩, ?_⟩
      refine follows_idle createStep_idles ⟨trivial, id⟩ fun now _ => ?_
      split
      · trivial
      · exact follows_idle createStep_idles ⟨trivial, id⟩ fun _ _ => ih

theorem follows_claimAndComplete (polls : Nat) (out : FileMetadataRecord) :
    Action.Follows (replies d) (CreateStep d caller.partition out.fileSource)
      (fun out φ => φ.Returns out.2 ∧ φ.MayExit) (fun _ φ => φ.MayExit)
      (claimAndComplete polls u caller out) start := by
  unfold claimAndComplete
  refine follows_ask fun r _ => ?_
  cases r with
  | error e =>
    refine ⟨start, .refused rfl ?_, follows_tryResult ?_ fun _ _ => trivial⟩
    · rintro claim ⟨⟩
    · rintro claim ⟨⟩
  | ok claim =>
    cases hclaim : claim.claimed with
    | true =>
      refine ⟨holding ⟨out.id, some claim.record.version⟩, .claim rfl hclaim,
        follows_tryResult ?_ nofun⟩
      rintro _ ⟨⟩
      rw [if_pos hclaim]
      have hcomplete := follows_complete (d := d)
        { u, caller, out, claim := some claim.record.version }
      exact Action.Follows.mono hcomplete (fun out φ h => ⟨h, mayExit_of_returns h⟩) fun _ _ h => h
    | false =>
      cases hstate : claim.state with
      | ready =>
        refine ⟨returning claim.record.id, .taken rfl hclaim hstate, follows_tryResult ?_ nofun⟩
        rintro _ ⟨⟩
        rw [if_neg (by simp [hclaim]), hstate]
        exact follows_existing
      | claiming =>
        refine ⟨start, .refused rfl (by simp [hclaim]), follows_tryResult ?_ nofun⟩
        rintro _ ⟨⟩
        rw [if_neg (by simp [hclaim]), hstate]
        refine follows_idle createStep_idles ⟨trivial, id⟩ fun now _ => ?_
        refine Action.Follows.bind (follows_pollExistingClaim polls _) ?_
        rintro id _ rfl
        exact ⟨.existing, trivial⟩
      | deleted =>
        refine ⟨start, .refused rfl (by simp [hclaim]), follows_tryResult ?_ nofun⟩
        rintro _ ⟨⟩
        rw [if_neg (by simp [hclaim]), hstate]
        trivial

/-- `CreateFileMetadata::Execute` keeps to the protocol of a creation, from its start to
the return. -/
theorem createFileMetadata_follows (d : Deployment) (polls : Nat) (u : UseCasePorts)
    (caller : CallerContext) (record : FileMetadataRecord) :
    (createFileMetadata polls u caller record).run.Follows (replies d)
      (CreateStep d caller.partition record.fileSource) (fun out φ => φ.Ends out) start := by
  have hbody : Action.Follows (replies d) (CreateStep d caller.partition record.fileSource)
      (fun id φ => φ.Returns id) (fun _ φ => φ.MayExit) (createFileMetadata polls u caller record)
      start := by
    refine follows_audited createStep_idles (Action.Follows.mono (E := fun _ φ => φ.MayExit)
      (Q := fun out φ => φ.Returns out.2 ∧ φ.MayExit) ?_ (fun _ _ h => ⟨h.1, fun _ => h.2⟩)
      fun _ _ h _ => h)
    refine follows_idle_bind createStep_idles (idle_checkRequest record) (fun _ => ?_)
      fun _ _ => trivial
    refine follows_idle createStep_idles ⟨trivial, id⟩ fun uuid _ => ?_
    refine follows_ask fun r _ => ?_
    cases r with
    | ok existing => exact ⟨returning existing.id, .found, follows_existing⟩
    | error e =>
      refine ⟨start, .idle ⟨trivial, id⟩, ?_⟩
      refine follows_ask fun capabilities _ => ?_
      cases hatomic : capabilities.atomicClaim with
      | true =>
        exact ⟨start, .idle ⟨trivial, id⟩,
          follows_claimAndComplete polls (newRecord caller record uuid)⟩
      | false =>
        refine ⟨holding ⟨(newRecord caller record uuid).id, none⟩, .unclaimed hatomic, ?_⟩
        have hcomplete := follows_complete (d := d)
          { u, caller, out := newRecord caller record uuid, claim := none }
        exact Action.Follows.mono hcomplete (fun out φ h => ⟨h, mayExit_of_returns h⟩)
          fun _ _ h => h
  refine Program.Follows.mono hbody fun out φ h => ?_
  cases out <;> exact h

end Execute

end FileService.Protocols
