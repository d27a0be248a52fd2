import FileService.Audit.UseCases
import FileService.Domain.Schedule

/-!
# One outcome event for every guarded call

The guard of a use case records the outcome once. A creation that answers with an
existing record, or that takes its object back, has recorded one before.
-/
namespace FileService.Audit
open FileService.Common FileService.Domain FileService.Interaction FileService.App

section Guarded
variable {u : UseCasePorts} {caller : CallerContext} {operation objectId : String} {α : Type}

/-- A use case whose body leaves its audit to the guard, as soon as it names the object of its
success event. -/
theorem settles_guarded {body : Domain.Action (Option String × α)}
    (hbody : Calls operation (fun out => out.1.isSome = true) body) :
    Leaves (audited u caller operation objectId body)
      (fun items _ => Settles u operation items true)
      fun items exit => exit ≠ .diverged → Settles u operation items false :=
  settles_audited (hbody.leaves.imp (fun _ _ h => .inl h) fun _ _ h => .inl h)

variable {polls : Nat} {options : IssuerOptions}

/-- The rest of `DownloadFile` when the location was looked up. -/
theorem calls_deliver {r : Result FileLocation} {objectId : String} {offset length : Nat} :
    Calls operation
      (fun out : Option String × DownloadStreamResult × Bytes => out.1.isSome = true) (do
        let location ← Action.tryResult r
        let ref ← objectRefFromLocation location
        let store ← Action.tryResult
          (← Action.ask (.forPartition caller.partition location.zone))
        let stat ← Action.tryResult (← Action.ask (.blobs store (.stat ref)))
        if !stat.exists then Action.fail (err .notFound ("对象不存在：" ++ ref.key))
        let data ← Action.tryResult (← Action.ask (.blobs store (.get ref { offset, length })))
        return (some objectId,
          ({ totalSize := stat.size
             checksum := stat.checksum
             checksumAlgorithm := stat.checksumAlgorithm
             bytesWritten := data.length }, data))) := by
  apply calls_bind (calls_tryResult r)
  intro location
  apply calls_bind calls_objectRefFromLocation
  intro ref
  apply calls_askTry fun _ => rfl
  intro store
  apply calls_askTry fun _ => rfl
  intro stat
  dsimp only
  split
  · exact calls_fail _
  · exact calls_askTry (fun _ => rfl) fun data => calls_pure rfl

theorem settles_downloadFile {fileId fileSource : String} {offset length : Nat} :
    Leaves (downloadFile u caller fileId fileSource offset length)
      (fun items _ => Settles u "downloadFile" items true)
      fun items exit => exit ≠ .diverged → Settles u "downloadFile" items false := by
  unfold downloadFile
  apply settles_guarded
  apply calls_bind calls_authorizeCaller
  intro _
  dsimp only
  split
  · exact calls_fail _
  split
  · exact calls_bind (calls_ask fun _ => rfl) fun _ => calls_deliver
  · exact calls_bind (calls_ask fun _ => rfl) fun _ => calls_deliver

/-- The creation that an upload may ask for is audited under its own name. -/
theorem calls_registerUpload (polls : Nat) {request : UploadStreamRequest} :
    Calls "uploadFile" (fun _ => True) (registerUpload polls u caller request) := by
  unfold registerUpload
  split
  · exact calls_pure trivial
  split
  · exact calls_fail _
  split
  · exact calls_fail _
  · exact calls_createFileMetadata (by decide) polls

theorem settles_uploadFile (polls : Nat) {request : UploadStreamRequest} {body : Bytes} :
    Leaves (uploadFile polls u caller request body)
      (fun items _ => Settles u "uploadFile" items true)
      fun items exit => exit ≠ .diverged → Settles u "uploadFile" items false := by
  unfold uploadFile
  apply settles_guarded
  apply calls_bind calls_authorizeCaller
  intro _
  dsimp only
  split
  · exact calls_fail _
  apply calls_bind (calls_ask fun _ => rfl)
  intro location
  cases location with
  | error e => exact calls_fail _
  | ok location =>
    apply calls_bind calls_objectRefFromLocation
    intro ref
    split
    · exact calls_fail _
    split
    · exact calls_fail _
    apply calls_askTry fun _ => rfl
    intro store
    apply calls_askTry fun _ => rfl
    intro _
    apply calls_askTry fun _ => rfl
    intro _
    apply calls_askTry fun _ => rfl
    intro stat
    have hrest : ∀ checksum checksumAlgorithm, Calls "uploadFile"
        (fun out : Option String × UploadStreamResult => out.1.isSome = true) (do
          let metadataRecordId ← registerUpload polls u caller request
          return (some location.fileId,
            { fileId := location.fileId
              fileSource := location.fileSource
              bytesWritten := stat.size.toNat
              checksum
              checksumAlgorithm
              metadataRecordId })) :=
      fun _ _ => calls_bind (calls_registerUpload polls) fun _ => calls_pure rfl
    split
    · exact calls_bind calls_computeChecksumStreaming fun checksum => hrest checksum "SHA256"
    · exact calls_bind (calls_pure trivial) fun checksum => hrest checksum stat.checksumAlgorithm

theorem settles_execute (useCase : UseCase) :
    Leaves (useCase.execute polls options u caller)
      (fun items _ => Settles u useCase.operation items true)
      fun items exit => exit ≠ .diverged → Settles u useCase.operation items false := by
  cases useCase with
  | createFileMetadata record => exact leaves_createFileMetadata polls
  | getUploadLocation requested expiryTime =>
    apply settles_guarded
    apply calls_bind calls_authorizeCaller
    intro _
    apply calls_bind calls_issueUploadLocation
    intro result
    apply calls_bind calls_acquireUploadLease
    intro _
    exact calls_pure rfl
  | getFileLocation fileId =>
    apply settles_guarded
    apply calls_bind calls_authorizeCaller
    intro _
    apply calls_askTry fun _ => rfl
    intro location
    apply calls_bind calls_providerKeyOf
    intro driver
    apply calls_bind calls_physicalLocationOf
    intro physical
    exact calls_pure rfl
  | getDownloadLocation fileId expiryTime =>
    apply settles_guarded
    apply calls_bind calls_authorizeCaller
    intro _
    apply calls_bind calls_issueDownloadLocation
    intro result
    exact calls_pure rfl
  | getFileList request =>
    apply settles_guarded
    apply calls_bind calls_authorizeCaller
    intro _
    dsimp only
    split
    · exact calls_fail _
    split
    · exact calls_fail _
    split
    · exact calls_fail _
    apply calls_askTry fun _ => rfl
    intro page
    split
    · exact calls_fail _
    apply calls_bind (Interaction.Action.relies_mapM fun _ _ => calls_fileListEntry)
    intro content
    exact calls_pure rfl
  | getFileMetadata recordId =>
    apply settles_guarded
    apply calls_bind calls_authorizeCaller
    intro _
    apply calls_askTry fun _ => rfl
    intro record
    exact calls_pure rfl
  | deleteFileMetadata recordId =>
    apply settles_guarded
    apply calls_bind calls_authorizeCallerAny
    intro _
    apply calls_askTry fun _ => rfl
    intro record
    apply calls_askTry fun _ => rfl
    intro _
    dsimp only
    split
    · exact calls_bind calls_deleteLocated fun _ => calls_pure rfl
    · exact calls_pure rfl
  | getStorageInstructions expiryTime =>
    apply settles_guarded
    apply calls_bind calls_authorizeCaller
    intro _
    apply calls_bind calls_issueUploadLocation
    intro result
    exact calls_pure rfl
  | getRetrievalInstructions ids expiryTime =>
    apply settles_guarded
    apply calls_bind calls_authorizeCaller
    intro _
    apply calls_bind (Interaction.Action.relies_mapM fun _ _ => calls_retrievalInstruction)
    intro out
    exact calls_pure rfl
  | copyFiles sources =>
    apply settles_guarded
    apply calls_bind calls_authorizeCallerAny
    intro _
    apply calls_bind calls_copyEach
    intro out
    exact calls_pure rfl
  | getFileSignedUrl srns expiryTime =>
    apply settles_guarded
    apply calls_bind calls_authorizeCaller
    intro _
    apply calls_bind (Interaction.Action.relies_foldlM (fun _ _ _ _ => calls_signSrn (by decide))
      trivial)
    intro out
    exact calls_pure rfl
  | revokeUrl =>
    apply settles_guarded
    apply calls_askTry fun _ => rfl
    intro _
    exact calls_pure rfl
  | uploadFile request body => exact settles_uploadFile polls
  | downloadFile fileId fileSource offset length => exact settles_downloadFile
  | serverSideCopy source target zone =>
    apply settles_guarded
    apply calls_bind calls_authorizeCallerAny
    intro _
    dsimp only
    split
    · exact calls_fail _
    split
    · exact calls_fail _
    apply calls_askTry fun _ => rfl
    intro location
    apply calls_bind calls_objectRefFromLocation
    intro fromRef
    apply calls_bind (calls_tryResult _)
    intro parts
    apply calls_bind calls_containerFor
    intro container
    apply calls_bind (calls_tryResult container)
    intro container
    apply calls_bind calls_copyBetweenZones
    intro stat
    exact calls_pure rfl

end Guarded

section Outcome
variable {polls : Nat} {options : IssuerOptions} {u : UseCasePorts} {caller : CallerContext}

/-- A finished call is audited once exactly if no creation recorded an outcome by itself. -/
theorem auditedOnce_iff {useCase : UseCase} {t : Trace ports} {out : Except Exit useCase.Value}
    (hrun : (useCase.execute polls options u caller).run.Emits t out)
    (hend : out ≠ .error .diverged) :
    AuditedOnce u useCase.operation (t.collected notes) out.isOk ↔
      ¬Doubles useCase.operation (t.collected notes) := by
  have hsettles := settles_execute useCase t out hrun fun _ _ => trivial
  cases out with
  | ok a => exact hsettles
  | error exit => exact hsettles fun hexit => hend (by rw [hexit])

/-- A finished call hands over one outcome event of its operation, if no creation settles for an
existing record or takes its object back. -/
theorem execute_auditedOnce {useCase : UseCase} {t : Trace ports} {out : Except Exit useCase.Value}
    (hrun : (useCase.execute polls options u caller).run.Emits t out)
    (hend : out ≠ .error .diverged) (hcreation : ¬Doubles useCase.operation (t.collected notes)) :
    AuditedOnce u useCase.operation (t.collected notes) out.isOk :=
  (auditedOnce_iff hrun hend).mpr hcreation

end Outcome

/-! ## Sample calls -/

/-- A deployment with a metadata service, which has no claims. -/
def remoteDeployment : Deployment := { sampleDeployment with backend := .remote }

/-- The model gave the polling up. -/
def isDiverged {α : Type} : Except Exit α → Bool
  | .error .diverged => true
  | _ => false

/-- The answers in a state, with an audit port that answers this. -/
def answersIn (w : World) (audit : Result Unit) (op : Port) : op.Reply :=
  match op with
  | .service (.recordAudit _) => audit
  | op => (w.apply remoteDeployment (String.ofList (List.replicate 32 '0')) op).1

/-- The sample file with its record. -/
def registeredWorld : World :=
  (migratedWorld.apply remoteDeployment "" (.metadata (.create "p" { sampleRecord with id := "p:r" }))).2

/-- The ports of a service that fails when its audit does. -/
def closedPorts : UseCasePorts := { samplePorts with auditFailClosed := true }

/-- A call of `CreateFileMetadata` for the sample file. -/
def sampleCreate (u : UseCasePorts) (answers : (op : Port) → op.Reply) :
    Trace ports × Except Exit String :=
  (createFileMetadata 1 u sampleCaller sampleRecord).run.answered answers

theorem emits_sampleCreate (u : UseCasePorts) (answers : (op : Port) → op.Reply) :
    ((UseCase.createFileMetadata sampleRecord).execute 1 {} u sampleCaller).run.Emits
      (sampleCreate u answers).1 (sampleCreate u answers).2 := by
  unfold UseCase.execute sampleCreate
  exact Program.emits_answered _ _

/-- The refusal of the audit port. -/
def refusal : Result Unit := .error (err .unavailable "")

/-- A creation whose success event is refused, at a service that fails when its audit does. -/
def refusedCreate : Trace ports × Except Exit String :=
  sampleCreate closedPorts (answersIn migratedWorld refusal)

/-- A creation for a file that has a record. -/
def repeatedCreate : Trace ports × Except Exit String :=
  sampleCreate samplePorts (answersIn registeredWorld (.ok ()))

theorem refusedCreate_auditedOnce :
    AuditedOnce closedPorts creation (refusedCreate.1.collected notes) refusedCreate.2.isOk := by
  have hend : refusedCreate.2 ≠ .error .diverged := by
    intro hdiverged
    have hfinished : isDiverged refusedCreate.2 = false := by decide +kernel
    rw [hdiverged] at hfinished
    cases hfinished
  have hcreation : ¬Doubles creation (refusedCreate.1.collected notes) := by
    decide +kernel
  exact execute_auditedOnce (emits_sampleCreate _ _) hend hcreation

/-- One outcome event, a success exactly if the call succeeded. -/
def OutcomeRecorded (operation : String) (items : List Note) (succeeded : Bool) : Prop :=
  ∃ event, outcomes operation items = [event] ∧ (event.result = "success" ↔ succeeded = true)

/-- The refused success event stands alone although the call fails. A creation that answers with
the record it found hands over a failure event after the success event. -/
theorem outcome_not_recorded :
    ¬OutcomeRecorded creation (refusedCreate.1.collected notes) refusedCreate.2.isOk ∧
    repeatedCreate.2.isOk = true ∧
    (outcomes creation (repeatedCreate.1.collected notes)).map AuditEvent.operation =
      ["createMetadataSuccess", "createMetadataFailure"] ∧
    ¬OutcomeRecorded creation (repeatedCreate.1.collected notes) repeatedCreate.2.isOk := by
  have hrepeated : (outcomes creation (repeatedCreate.1.collected notes)).map
      AuditEvent.operation = ["createMetadataSuccess", "createMetadataFailure"] := by
    decide +kernel
  refine ⟨?_, by decide +kernel, hrepeated, ?_⟩
  · rintro ⟨event, houtcomes, hresult⟩
    have hrefused : (outcomes creation (refusedCreate.1.collected notes)).map AuditEvent.result =
        ["success"] := by decide +kernel
    have hfailed : refusedCreate.2.isOk = false := by decide +kernel
    rw [houtcomes, List.map_singleton, List.singleton_inj] at hrefused
    rw [hresult.mp hrefused] at hfailed
    cases hfailed
  · rintro ⟨event, houtcomes, -⟩
    rw [houtcomes] at hrepeated
    simp at hrepeated

end FileService.Audit
