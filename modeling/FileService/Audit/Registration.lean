import FileService.Audit.Creation

/-!
# The audit events of a creation

Every event that a creation hands over has one of five operation names, so a
creation within another use case leaves the audit of that one alone.
-/
namespace FileService.Audit
open FileService.Common FileService.Domain FileService.Interaction FileService.App

/-- The outcome events and the warnings of a creation. -/
def creationEvents : List String :=
  [creation ++ "Success", creation ++ "Failure", "createMetadataClaimReleaseFailure",
    "createMetadataLeaseReleaseFailure", "createMetadataStagingCleanupFailure"]

/-- No event of a creation is an outcome of this operation. -/
def Unrelated (operation : String) : Prop :=
  operation ≠ creation ∧ ∀ name ∈ creationEvents,
    name ≠ operation ++ "Success" ∧ name ≠ operation ++ "Failure"

instance (operation : String) : Decidable (Unrelated operation) := by
  unfold Unrelated
  infer_instance

section Events
variable {operation : String} {u : UseCasePorts} {caller : CallerContext} (h : Unrelated operation)
include h

theorem harmless_of_unaudited {op : Port} (hop : ∀ event, op ≠ .service (.recordAudit event)) :
    Harmless operation op := by
  intro r item hitem
  cases item with
  | existing => exact h.1
  | rollback => exact h.1
  | audit event recorded =>
    exfalso
    cases op with
    | service call =>
      cases call with
      | recordAudit event => exact hop event rfl
      | publishStatusChanged topic event =>
        simp only [notes] at hitem
        split_ifs at hitem <;> simp at hitem
      | _ => cases hitem
    | metadata call =>
      cases call with
      | getLatestByFileSource p fs => cases r <;> simp [notes] at hitem
      | claimForWrite p record =>
        cases r with
        | error e => cases hitem
        | ok claim =>
          simp only [notes] at hitem
          split_ifs at hitem <;> simp at hitem
      | _ => cases hitem
    | _ => cases hitem

theorem calls_unaudited {op : Port} (hop : ∀ event, op ≠ .service (.recordAudit event)) :
    Calls operation (fun _ => True) (Action.ask op) :=
  (Domain.Action.relies_ask (harmless_of_unaudited h hop)).imp fun _ _ => trivial

theorem calls_recordAudit {name objectId : String} {success : Bool} (hname : name ∈ creationEvents) :
    Calls operation (fun _ => True) (recordAudit u name caller objectId success) := by
  apply calls_bind (calls_ask fun _ => rfl)
  intro millis
  have haudit : ∀ event : AuditEvent, event.operation = name →
      Harmless operation (.service (.recordAudit event)) := by
    intro event hevent r item hitem
    cases List.mem_singleton.mp hitem
    obtain ⟨hsuccess, hfailure⟩ := h.2 name hname
    simp [Note.Aside, isOutcome, hevent, hsuccess, hfailure]
  apply calls_bind ((Domain.Action.relies_ask (haudit _ rfl)).imp fun _ _ => trivial)
  intro r
  cases r with
  | ok a => exact calls_pure trivial
  | error e =>
    dsimp only
    split
    · exact calls_fail _
    · exact calls_pure trivial

theorem calls_recordFailure {name objectId : String} (hname : name ∈ creationEvents) :
    Calls operation (fun _ => True) (recordFailure u name caller objectId) :=
  calls_bind (calls_attempt (calls_recordAudit h hname)) fun _ => calls_pure trivial

theorem calls_publishAnyStatus {status recordId : String} {version : Int} :
    Calls operation (fun _ => True) (publishStatus caller status version recordId) :=
  calls_bind (calls_unaudited h (by simp)) fun _ => calls_pure trivial

theorem calls_returnExistingRecord {existing : FileMetadataRecord} :
    Calls operation (fun _ => True) (returnExistingRecord u caller existing) :=
  calls_bind (calls_publishAnyStatus h) fun _ => calls_bind calls_publishDatasetDetails fun _ =>
    calls_bind (calls_recordAudit h (by decide)) fun _ => calls_pure trivial

theorem calls_rollbackCreatedObject {target : ObjectRef} {fileSource recordId : String} :
    Calls operation (fun _ => True) (rollbackCreatedObject u caller target fileSource recordId) := by
  have htail : Calls operation (fun _ => True) (do
      publishStatus caller "FAILED" 0 recordId
      recordFailure u "createMetadataFailure" caller recordId) :=
    calls_bind (calls_publishAnyStatus h) fun _ => calls_recordFailure h (by decide)
  apply calls_bind (calls_unaudited h (by simp))
  intro existing
  cases existing with
  | ok record => exact htail
  | error e =>
    apply calls_bind (calls_ask fun _ => rfl)
    intro store
    cases store with
    | error e => exact htail
    | ok store => exact calls_bind (calls_ask fun _ => rfl) fun _ => htail

section Job
variable {job : CreateJob} {location : FileLocation} {source target : ObjectRef}

theorem calls_abortWith {α : Type} {rollbackRef : Option ObjectRef} {e : Error} :
    Calls operation (fun _ => True) (job.abortWith rollbackRef e : Domain.Action α) := by
  have hrelease : Calls operation (fun _ => True) (job.abortCreate none) := by
    unfold CreateJob.abortCreate
    cases job.claim with
    | none => exact calls_pure trivial
    | some version =>
      apply calls_bind (calls_ask fun _ => rfl)
      intro released
      cases released with
      | ok a => exact calls_pure trivial
      | error e => exact calls_recordFailure h (by decide)
  have habort : Calls operation (fun _ => True) (job.abortCreate rollbackRef) := by
    cases rollbackRef with
    | none => exact hrelease
    | some target => exact calls_bind (calls_rollbackCreatedObject h) fun _ => hrelease
  exact calls_bind habort fun _ => calls_fail _

theorem calls_abortIfLeaseLost {renewer : Option Nat} :
    Calls operation (fun _ => True) (job.abortIfLeaseLost renewer target) := by
  unfold CreateJob.abortIfLeaseLost
  cases renewer with
  | none => exact calls_pure trivial
  | some handle =>
    apply calls_bind (calls_ask fun _ => rfl)
    intro failed
    split
    · exact calls_abortWith h
    · exact calls_pure trivial

theorem calls_obtainPersistent :
    Calls operation (fun _ => True) (job.obtainPersistent location source target) := by
  unfold CreateJob.obtainPersistent
  split
  · apply calls_bind (calls_attempt calls_copyBetweenZones)
    intro copied
    cases copied with
    | ok stat => exact calls_pure trivial
    | error e =>
      apply calls_bind (calls_unaudited h (by simp))
      intro existing
      cases existing with
      | ok existing =>
        dsimp only
        cases job.claim with
        | none => exact calls_bind (calls_returnExistingRecord h) fun _ => calls_pure trivial
        | some version =>
          exact calls_bind (calls_ask fun _ => rfl) fun _ =>
            calls_bind (calls_returnExistingRecord h) fun _ => calls_pure trivial
      | error e => exact calls_abortWith h
  · apply calls_bind
    · apply calls_bind (calls_ask fun _ => rfl)
      intro store
      cases store with
      | error e => exact calls_abortWith h
      | ok store =>
        apply calls_bind (calls_ask fun _ => rfl)
        intro stat
        cases stat with
        | error e => exact calls_abortWith h
        | ok stat =>
          dsimp only
          split
          · exact calls_pure trivial
          · exact calls_abortWith h
    · exact fun _ => calls_pure trivial

theorem calls_checksummed {stat : ObjectStat} :
    Calls operation (fun _ => True) (job.checksummed target stat) := by
  unfold CreateJob.checksummed
  extract_lets computed
  have hcomputed : Calls operation (fun _ => True) computed := by
    apply calls_bind (calls_attempt calls_computeChecksumStreaming)
    intro checksum
    cases checksum with
    | ok checksum => exact calls_pure trivial
    | error e => exact calls_abortWith h
  split
  · split
    · exact calls_pure trivial
    · exact hcomputed
  · exact hcomputed

theorem calls_storeRecord {out : FileMetadataRecord} :
    Calls operation (fun _ => True) (job.storeRecord out target) := by
  unfold CreateJob.storeRecord
  cases job.claim with
  | some version =>
    apply calls_bind (calls_ask fun _ => rfl)
    intro created
    cases created with
    | ok created => exact calls_pure trivial
    | error e => exact calls_abortWith h
  | none =>
    apply calls_bind (calls_ask fun _ => rfl)
    intro created
    cases created with
    | ok created => exact calls_pure trivial
    | error e => exact calls_abortWith h

theorem calls_registerFound {renewer : Option Nat} :
    Calls operation (fun _ => True) (job.registerFound renewer) := by
  unfold CreateJob.registerFound
  apply calls_bind (calls_ask fun _ => rfl)
  intro location
  cases location with
  | error e => exact calls_abortWith h
  | ok location =>
    apply calls_bind calls_objectRefFromLocation
    intro source
    apply calls_bind calls_containerFor
    intro container
    apply calls_bind (calls_tryResult container)
    intro container
    apply calls_bind (calls_obtainPersistent h)
    intro obtained
    cases obtained with
    | inl recordId => exact calls_pure trivial
    | inr stat =>
      apply calls_bind (calls_abortIfLeaseLost h)
      intro _
      apply calls_bind (calls_checksummed h)
      intro out
      apply calls_bind (calls_abortIfLeaseLost h)
      intro _
      apply calls_bind (calls_storeRecord h)
      intro record
      exact calls_pure trivial

theorem calls_register {renewer : Option Nat} :
    Calls operation (fun _ => True) (job.register renewer) := by
  rw [CreateJob.register_eq]
  split
  · exact calls_bind (calls_ask fun _ => rfl) fun _ => calls_registerFound h
  · exact calls_registerFound h

theorem calls_releaseLease {fileSource recordId : String} {renewer : Nat} :
    Calls operation (fun _ => True) (releaseLease u caller fileSource recordId renewer) := by
  apply calls_bind (calls_ask fun _ => rfl)
  intro _
  apply calls_bind (calls_ask fun _ => rfl)
  intro released
  cases released with
  | ok a => exact calls_pure trivial
  | error e => exact calls_recordFailure h (by decide)

theorem calls_registerUnderLease : Calls operation (fun _ => True) job.registerUnderLease := by
  unfold CreateJob.registerUnderLease
  split
  · apply calls_bind (calls_attempt calls_ensureLeaseOwnership)
    intro owned
    cases owned with
    | error e => exact calls_abortWith h
    | ok a =>
      apply calls_bind (calls_ask fun _ => rfl)
      intro renewer
      apply Domain.Action.relies_destructing _ (calls_releaseLease h)
      apply calls_bind (calls_ask fun _ => rfl)
      intro failed
      split
      · exact calls_abortWith h
      · exact calls_register h
  · exact calls_register h

theorem calls_complete : Calls operation (fun _ => True) job.complete := by
  apply calls_bind (calls_registerUnderLease h)
  intro registration
  cases registration with
  | existing recordId => exact calls_pure trivial
  | created record location source target =>
    have hremove : Calls operation (fun _ => True) (job.removeStaging record.id source) := by
      apply calls_bind (calls_ask fun _ => rfl)
      intro store
      cases store with
      | error e => exact calls_pure trivial
      | ok store =>
        apply calls_bind (calls_ask fun _ => rfl)
        intro removed
        cases removed with
        | ok a => exact calls_pure trivial
        | error e => exact calls_recordFailure h (by decide)
    have hpublish : Calls operation (fun _ => True)
        (job.publishCreated record location source target) := by
      apply calls_bind (calls_publishAnyStatus h)
      intro _
      apply calls_bind calls_publishDatasetDetails
      intro _
      apply calls_bind (calls_ask fun _ => rfl)
      intro now
      apply calls_bind (calls_ask fun _ => rfl)
      intro _
      dsimp only
      split
      · exact calls_bind hremove fun _ => calls_pure trivial
      · exact calls_pure trivial
    exact calls_bind hpublish fun _ => calls_pure trivial

end Job

theorem calls_pollExistingClaim {fileSource : String} {deadline : Int} (polls : Nat) :
    Calls operation (fun _ => True) (pollExistingClaim u caller fileSource deadline polls) := by
  induction polls with
  | zero => exact calls_throw _
  | succ polls ih =>
    apply calls_bind (calls_unaudited h (by simp))
    intro existing
    cases existing with
    | ok existing => exact calls_returnExistingRecord h
    | error e =>
      apply calls_bind (calls_ask fun _ => rfl)
      intro now
      split
      · exact calls_fail _
      · exact calls_bind (calls_ask fun _ => rfl) fun _ => ih

theorem calls_claimAndComplete (polls : Nat) {out : FileMetadataRecord} :
    Calls operation (fun _ => True) (claimAndComplete polls u caller out) := by
  apply calls_bind (calls_unaudited h (by simp))
  intro claim
  apply calls_bind (calls_tryResult claim)
  intro claim
  split
  · exact calls_complete h
  · split
    · exact calls_bind (calls_returnExistingRecord h) fun _ => calls_pure trivial
    · exact calls_bind (calls_bind (calls_ask fun _ => rfl) fun _ =>
        calls_pollExistingClaim h polls) fun _ => calls_pure trivial
    · exact calls_fail _

theorem calls_audited {α : Type} {body : Domain.Action (Option String × α)} {objectId : String}
    (hbody : Calls operation (fun _ => True) body) :
    Calls operation (fun _ => True) (audited u caller creation objectId body) := by
  have hfailure : Calls operation (fun _ => True)
      (recordFailure u (creation ++ "Failure") caller objectId) :=
    calls_recordFailure h (by decide)
  apply Interaction.Action.relies_exitingWith hbody
  intro out _
  match out with
  | .ok (none, a) => exact calls_bind hfailure fun _ => calls_pure trivial
  | .ok (some id, a) =>
    exact calls_bind (calls_recordAudit h (by decide)) fun _ => calls_pure trivial
  | .error (.error e) => exact calls_bind hfailure fun _ => calls_throw _
  | .error (.exception what) => exact calls_bind hfailure fun _ => calls_throw _
  | .error .diverged => exact calls_throw _

theorem calls_createFileMetadata (polls : Nat) {record : FileMetadataRecord} :
    Calls operation (fun _ => True) (createFileMetadata polls u caller record) := by
  apply calls_audited h
  apply calls_bind calls_checkRequest
  intro _
  apply calls_bind (calls_ask fun _ => rfl)
  intro uuid
  apply calls_bind (calls_unaudited h (by simp))
  intro existing
  cases existing with
  | ok existing => exact calls_bind (calls_returnExistingRecord h) fun _ => calls_pure trivial
  | error e =>
    apply calls_bind (calls_ask fun _ => rfl)
    intro capabilities
    split
    · exact calls_claimAndComplete h polls
    · exact calls_complete h

end Events

end FileService.Audit
