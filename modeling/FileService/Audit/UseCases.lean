import FileService.App.CreateFileMetadata
import FileService.App.Queries
import FileService.Audit.Registration

/-!
# The audit of every guarded use case

All use cases but `GetInfo` run under an audit guard. Only a creation hands over
outcome events of its own operation by itself.
-/
namespace FileService.Audit
open FileService.Common FileService.Domain FileService.Interaction FileService.App

section Issuing
variable {operation : String} {caller : CallerContext} {u : UseCasePorts} {options : IssuerOptions}
variable {partition userId fileId : String} {expiryTime : Option String}

theorem calls_authorizeCallerAny {roles : List String} :
    Calls operation (fun _ => True) (authorizeCallerAny caller roles) := by
  unfold authorizeCallerAny
  dsimp only
  split
  · exact calls_fail _
  · split
    · exact calls_fail _
    · exact calls_bind (calls_ask fun _ => rfl) fun r => calls_tryResult r

theorem calls_chooseFileId {requested : Option String} :
    Calls operation (fun _ => True) (chooseFileId partition requested) := by
  unfold chooseFileId
  cases requested with
  | none => exact calls_ask fun _ => rfl
  | some fileId =>
    dsimp only
    split_ifs
    · exact calls_ask fun _ => rfl
    · exact calls_fail _
    · apply calls_bind (calls_ask fun _ => rfl)
      intro found
      cases found with
      | ok location => exact calls_fail _
      | error e => exact calls_pure trivial

/-- A call, and the value of its result. -/
theorem calls_askTry {α V : Type} {Q : α → Prop} {op : Port} {g : op.Reply → Result V}
    {f : V → Domain.Action α} (hop : ∀ r : op.Reply, notes ⟨op, r⟩ = [])
    (hf : ∀ v, Calls operation Q (f v)) :
    Calls operation Q (Action.ask op >>= fun r => Action.tryResult (g r) >>= f) :=
  calls_bind (calls_ask hop) fun r => calls_bind (calls_tryResult (g r)) hf

theorem calls_shapeSigned {location : FileLocation} {caps : BlobCapabilities} {ttl : Int}
    (signed : SignedLocation) : Calls operation (fun _ => True)
      (shapeSigned location caps ttl signed) := by
  unfold shapeSigned
  split
  · exact calls_pure trivial
  · exact calls_bind (calls_ask fun _ => rfl) fun _ => calls_pure trivial

theorem calls_signUpload {store : StoreId} {ref : ObjectRef} {location : FileLocation}
    {caps : BlobCapabilities} {ttl : Int} : Calls operation (fun _ => True)
      (signUpload options store ref location caps partition ttl) := by
  unfold signUpload
  split
  · exact calls_askTry (fun _ => rfl) fun signed => calls_shapeSigned signed
  · apply calls_bind (calls_ask fun _ => rfl)
    intro now
    exact calls_askTry (fun _ => rfl) fun url => calls_shapeSigned _

theorem calls_signDownload {store : StoreId} {ref : ObjectRef} {location : FileLocation}
    {caps : BlobCapabilities} {ttl : Int} : Calls operation (fun _ => True)
      (signDownload options store ref location caps partition ttl) := by
  unfold signDownload
  split
  · exact calls_askTry (fun _ => rfl) fun signed => calls_shapeSigned signed
  · apply calls_bind (calls_ask fun _ => rfl)
    intro now
    exact calls_askTry (fun _ => rfl) fun url => calls_shapeSigned _

theorem calls_placeUpload (fs : String) (parts : SourcePath) (r : Result String)
    (ttl : BlobCapabilities → Int) : Calls operation (fun _ => True)
      (placeUpload options partition userId fileId fs (makePosixKey parts) ttl r) := by
  unfold placeUpload
  apply calls_bind (calls_tryResult r)
  intro container
  apply calls_askTry fun _ => rfl
  intro store
  apply calls_askTry fun _ => rfl
  intro _
  apply calls_askTry fun _ => rfl
  intro _
  apply calls_bind (calls_ask fun _ => rfl)
  intro caps
  apply calls_bind (calls_ask fun _ => rfl)
  intro now
  apply calls_askTry fun _ => rfl
  intro _
  exact calls_signUpload

theorem calls_issueUploadLocation {requested : Option String} : Calls operation (fun _ => True)
    (issueUploadLocation options partition userId requested expiryTime) := by
  unfold issueUploadLocation
  dsimp only
  split
  · exact calls_fail _
  split
  · exact calls_fail _
  apply calls_bind (calls_tryResult _)
  intro ttl
  apply calls_bind calls_chooseFileId
  intro fileId
  apply calls_bind (calls_ask fun _ => rfl)
  intro nowMillis
  apply calls_bind (calls_tryResult _)
  intro fs
  split
  · apply calls_bind (calls_ask fun _ => rfl)
    intro config
    exact calls_placeUpload fs _ _
      fun caps => applySelfSignedTtl options ttl caps (expiryTime.getD "" ≠ "")
  · exact calls_placeUpload fs _ _
      fun caps => applySelfSignedTtl options ttl caps (expiryTime.getD "" ≠ "")

theorem calls_issueDownloadLocation : Calls operation (fun _ => True)
    (issueDownloadLocation options partition fileId expiryTime) := by
  unfold issueDownloadLocation
  dsimp only
  split
  · exact calls_fail _
  split
  · exact calls_fail _
  apply calls_bind (calls_tryResult _)
  intro ttl
  apply calls_askTry fun _ => rfl
  intro location
  apply calls_bind calls_objectRefFromLocation
  intro ref
  apply calls_askTry fun _ => rfl
  intro store
  apply calls_bind (calls_ask fun _ => rfl)
  intro caps
  exact calls_signDownload

theorem calls_removeIssuedUpload :
    Calls operation (fun _ => True) (removeIssuedUpload caller fileId) := by
  have hdelete : Calls operation (fun _ => True) (do
      let _ ← Action.ask (.locations (.delete caller.partition fileId))) :=
    calls_bind (calls_ask fun _ => rfl) fun _ => calls_pure trivial
  apply calls_bind (calls_ask fun _ => rfl)
  intro stored
  cases stored with
  | error e => exact hdelete
  | ok stored =>
    apply calls_bind (calls_attempt calls_objectRefFromLocation)
    intro ref
    cases ref with
    | error e => exact hdelete
    | ok ref =>
      apply calls_bind (calls_ask fun _ => rfl)
      intro store
      cases store with
      | error e => exact hdelete
      | ok store => exact calls_bind (calls_ask fun _ => rfl) fun _ => hdelete

theorem calls_acquireUploadLease {location : LocationResult} :
    Calls operation (fun _ => True) (acquireUploadLease u caller location) := by
  unfold acquireUploadLease
  split
  · exact calls_pure trivial
  · apply calls_bind (calls_ask fun _ => rfl)
    intro lease
    cases lease with
    | ok a => exact calls_pure trivial
    | error e => exact calls_bind calls_removeIssuedUpload fun _ => calls_fail _

end Issuing

section Rounds
variable {operation : String} {caller : CallerContext} {options : IssuerOptions}
variable {expiryTime : Option String}

theorem calls_physicalLocationOf {location : FileLocation} :
    Calls operation (fun _ => True) (physicalLocationOf location) := by
  apply calls_bind (calls_attempt calls_objectRefFromLocation)
  intro ref
  cases ref with
  | ok ref => exact calls_pure trivial
  | error e => exact calls_pure trivial

theorem calls_providerKeyOf {location : FileLocation} :
    Calls operation (fun _ => True) (providerKeyOf location) := by
  unfold providerKeyOf
  split
  · split
    · exact calls_pure trivial
    · exact calls_throw _
  · exact calls_pure trivial

theorem calls_fileListEntry {location : FileLocation} :
    Calls operation (fun _ => True) (fileListEntry location) :=
  calls_bind calls_providerKeyOf fun _ => calls_bind calls_physicalLocationOf fun _ =>
    calls_pure trivial

theorem calls_deleteLocated {fileSource : String} :
    Calls operation (fun _ => True) (deleteLocated caller fileSource) := by
  apply calls_bind (calls_ask fun _ => rfl)
  intro location
  cases location with
  | error e => exact calls_pure trivial
  | ok location =>
    have hdelete : Calls operation (fun _ => True) (do
        let _ ← Action.ask (.locations (.delete caller.partition location.fileId))) :=
      calls_bind (calls_ask fun _ => rfl) fun _ => calls_pure trivial
    apply calls_bind (calls_attempt calls_objectRefFromLocation)
    intro ref
    cases ref with
    | error e => exact hdelete
    | ok ref =>
      apply calls_bind (calls_ask fun _ => rfl)
      intro store
      cases store with
      | error e => exact hdelete
      | ok store => exact calls_bind (calls_ask fun _ => rfl) fun _ => hdelete

theorem calls_copyFile {fileSource : String} :
    Calls operation (fun _ => True) (copyFile caller fileSource) := by
  unfold copyFile
  dsimp only
  split
  · exact calls_fail _
  apply calls_bind (calls_ask fun _ => rfl)
  intro location
  cases location with
  | error e => exact calls_pure trivial
  | ok location =>
    apply calls_bind (calls_attempt calls_objectRefFromLocation)
    intro fromRef
    apply calls_bind calls_containerFor
    intro container
    split
    · exact calls_bind (calls_attempt calls_copyBetweenZones) fun _ => calls_pure trivial
    · exact calls_pure trivial

theorem calls_copyEach {sources : List String} :
    Calls operation (fun _ => True) (copyEach caller sources) := by
  induction sources with
  | nil => exact calls_pure trivial
  | cons source sources ih =>
    exact calls_bind calls_copyFile fun _ => calls_bind ih fun _ => calls_pure trivial

theorem calls_retrievalInstruction {registryId : String} : Calls operation (fun _ => True)
    (retrievalInstruction options caller expiryTime registryId) := by
  apply calls_bind (calls_ask fun _ => rfl)
  intro record
  cases record with
  | error e => exact calls_pure trivial
  | ok record =>
    dsimp only
    split
    · exact calls_pure trivial
    · apply calls_bind (calls_ask fun _ => rfl)
      intro location
      cases location with
      | error e => exact calls_pure trivial
      | ok location =>
        apply calls_bind (calls_attempt calls_issueDownloadLocation)
        intro signed
        cases signed with
        | error e => exact calls_pure trivial
        | ok signed => exact calls_bind calls_providerKeyOf fun _ => calls_pure trivial

/-- The lookup of the kind is the one call that leaves a note. -/
theorem calls_signSrn (hoperation : operation ≠ creation) {out : SignedUrlResult} {srn : String} :
    Calls operation (fun _ => True) (signSrn options caller expiryTime out srn) := by
  unfold signSrn
  dsimp only
  split
  · exact calls_pure trivial
  · apply calls_bind (calls_ask fun _ => rfl)
    intro location
    cases location with
    | error e => exact calls_pure trivial
    | ok location =>
      apply calls_bind (calls_attempt calls_issueDownloadLocation)
      intro signed
      cases signed with
      | error e => exact calls_pure trivial
      | ok signed =>
        have hlookup : Harmless operation (.metadata
            (.getLatestByFileSource caller.partition location.fileSource)) := by
          intro r item hitem
          cases r with
          | ok record =>
            cases List.mem_singleton.mp hitem
            exact hoperation
          | error e => cases hitem
        exact calls_bind ((Domain.Action.relies_ask hlookup).imp fun _ _ => trivial) fun _ =>
          calls_pure trivial

end Rounds

/-- The requests of the guarded use cases. -/
inductive UseCase where
  | getUploadLocation (requestedFileId expiryTime : Option String)
  | getFileLocation (fileId : String)
  | getDownloadLocation (fileId : String) (expiryTime : Option String)
  | getFileList (request : FileListRequest)
  | createFileMetadata (record : FileMetadataRecord)
  | getFileMetadata (recordId : String)
  | deleteFileMetadata (recordId : String)
  | getStorageInstructions (expiryTime : Option String)
  | getRetrievalInstructions (datasetRegistryIds : List String) (expiryTime : Option String)
  | copyFiles (sources : List String)
  | getFileSignedUrl (srns : List String) (expiryTime : Option String)
  | revokeUrl
  | uploadFile (request : UploadStreamRequest) (body : Bytes)
  | downloadFile (fileId fileSource : String) (offset length : Nat)
  | serverSideCopy (sourceFileSource targetFileSource : String) (targetZone : StorageZone)

namespace UseCase

abbrev Value : UseCase → Type
  | getUploadLocation .. => LocationResult
  | getFileLocation .. => FileLocationView
  | getDownloadLocation .. => DownloadLocationResult
  | getFileList .. => FileListResult
  | createFileMetadata .. => String
  | getFileMetadata .. => FileMetadataRecord
  | deleteFileMetadata .. => Unit
  | getStorageInstructions .. => StorageInstructions
  | getRetrievalInstructions .. => List RetrievalInstruction
  | copyFiles .. => List CopyFileOutcome
  | getFileSignedUrl .. => SignedUrlResult
  | revokeUrl => Unit
  | uploadFile .. => UploadStreamResult
  | downloadFile .. => DownloadStreamResult × Bytes
  | serverSideCopy .. => ServerSideCopyResult

/-- The operation that the audit guard of the use case names. -/
def operation : UseCase → String
  | getUploadLocation .. => "createLocation"
  | getFileLocation .. => "readFileLocation"
  | getDownloadLocation .. => "createDownloadLocation"
  | getFileList .. => "getFileList"
  | createFileMetadata .. => "createMetadata"
  | getFileMetadata .. => "readMetadata"
  | deleteFileMetadata .. => "deleteMetadata"
  | getStorageInstructions .. => "getStorageInstructions"
  | getRetrievalInstructions .. => "getRetrievalInstructions"
  | copyFiles .. => "copyFiles"
  | getFileSignedUrl .. => "getFileSignedUrl"
  | revokeUrl => "revokeUrl"
  | uploadFile .. => "uploadFile"
  | downloadFile .. => "downloadFile"
  | serverSideCopy .. => "serverSideCopy"

/-- `Execute` -/
def execute (polls : Nat) (options : IssuerOptions) (u : UseCasePorts) (caller : CallerContext) :
    (useCase : UseCase) → Domain.Action useCase.Value
  | getUploadLocation requested expiryTime =>
    App.getUploadLocation options u caller requested expiryTime
  | getFileLocation fileId => App.getFileLocation u caller fileId
  | getDownloadLocation fileId expiryTime => App.getDownloadLocation options u caller fileId expiryTime
  | getFileList request => App.getFileList u caller request
  | createFileMetadata record => App.createFileMetadata polls u caller record
  | getFileMetadata recordId => App.getFileMetadata u caller recordId
  | deleteFileMetadata recordId => App.deleteFileMetadata u caller recordId
  | getStorageInstructions expiryTime => App.getStorageInstructions options u caller expiryTime
  | getRetrievalInstructions ids expiryTime =>
    App.getRetrievalInstructions options u caller ids expiryTime
  | copyFiles sources => App.copyFiles u caller sources
  | getFileSignedUrl srns expiryTime => App.getFileSignedUrl options u caller srns expiryTime
  | revokeUrl => App.revokeUrl u caller
  | uploadFile request body => App.uploadFile polls u caller request body
  | downloadFile fileId fileSource offset length =>
    App.downloadFile u caller fileId fileSource offset length
  | serverSideCopy source target zone => App.serverSideCopy u caller source target zone

end UseCase

end FileService.Audit
