import FileService.App.Upload
import FileService.Protocols.Replies

/-!
# `IssueUploadLocation` as a protocol

An issue saves one location record and returns what it saved. Other threads
delete records by their file id. No other call of either changes a record.
-/
namespace FileService.Protocols
open FileService.Common FileService.Domain FileService.Interaction FileService.App

/-- Calls that write no location record. -/
def KeepsLocations : Port → Prop
  | .locations (.save ..) | .locations (.updateSignedUrl ..) | .locations (.delete ..) => False
  | _ => True

inductive IssuePhase where
  | unsaved
  | saved (location : FileLocation)

/-- The phase in which an issue may return this result. -/
def IssuePhase.Returns (result : LocationResult) : IssuePhase → Prop
  | .unsaved => False
  | .saved location =>
    location.fileId = result.fileId ∧ location.fileSource = result.fileSource

inductive IssueStep (p : String) : Protocol ports IssuePhase
  | keep {φ : IssuePhase} {op : Port} {r : op.Reply} (hop : KeepsLocations op) : IssueStep p φ op r φ
  | save {location : FileLocation} :
      IssueStep p .unsaved (.locations (.save p location)) (.ok ()) (.saved location)
  | saveFailed {location : FileLocation} {e : Error} :
      IssueStep p .unsaved (.locations (.save p location)) (.error e) .unsaved
  | delete {φ : IssuePhase} {fileId : String} {r : Result Unit} :
      IssueStep p φ (.locations (.delete p fileId)) r φ

/-- What a thread does to the locations of a partition: issue one, or delete one. -/
inductive LocationRequest where
  | issue (options : IssuerOptions) (userId : String) (requestedFileId expiryTime : Option String)
  | delete (fileId : String)

/-- The action of a request; only an issue returns a location. -/
def LocationRequest.action (p : String) : LocationRequest → Domain.Action (Option LocationResult)
  | .issue options userId requested expiryTime => do
    let result ← issueUploadLocation options p userId requested expiryTime
    return some result
  | .delete fileId => do
    let _ ← Action.ask (.locations (.delete p fileId))
    return none

section Follows
variable {d : Deployment} {p : String} {options : IssuerOptions} {α : Type} {φ : IssuePhase}
variable {Q : α → IssuePhase → Prop}

/-- Any exit is allowed. -/
abbrev FollowsIssue (d : Deployment) (p : String) (Q : α → IssuePhase → Prop) (x : Domain.Action α)
    (φ : IssuePhase) : Prop :=
  Action.Follows (replies d) (IssueStep p) Q (fun _ _ => True) x φ

theorem follows_keep {op : Port} {f : op.Reply → Domain.Action α} (hop : KeepsLocations op)
    (hf : ∀ r, FollowsIssue d p Q (f r) φ) : FollowsIssue d p Q (Action.ask op >>= f) φ :=
  follows_ask fun r _ => ⟨φ, .keep hop, hf r⟩

theorem follows_try {β : Type} {r : Result β} {f : β → Domain.Action α}
    (hf : ∀ b, r = .ok b → FollowsIssue d p Q (f b) φ) :
    FollowsIssue d p Q (Action.tryResult r >>= f) φ :=
  follows_tryResult hf fun _ _ => trivial

theorem follows_fail (e : Error) : FollowsIssue d p Q (Action.fail e) φ :=
  Action.follows_throw trivial

theorem follows_shapeSigned {location : FileLocation} {caps : BlobCapabilities} {ttl : Int}
    (signed : SignedLocation) : FollowsIssue d p (fun result φ => φ.Returns result)
      (shapeSigned location caps ttl signed) (.saved location) := by
  unfold shapeSigned
  split
  · exact ⟨rfl, rfl⟩
  · exact follows_keep (by trivial) fun now => ⟨rfl, rfl⟩

theorem follows_signUpload {store : StoreId} {ref : ObjectRef} {location : FileLocation}
    {caps : BlobCapabilities} {ttl : Int} :
    FollowsIssue d p (fun result φ => φ.Returns result)
      (signUpload options store ref location caps p ttl) (.saved location) := by
  unfold signUpload
  split
  · apply follows_keep (by trivial)
    intro r
    exact follows_try fun signed _ => follows_shapeSigned signed
  · apply follows_keep (by trivial)
    intro now
    apply follows_keep (by trivial)
    intro r
    exact follows_try fun url _ => follows_shapeSigned _

theorem follows_chooseFileId {requested : Option String} :
    FollowsIssue d p (fun _ φ => φ = .unsaved) (chooseFileId p requested) .unsaved := by
  have hnew : FollowsIssue d p (fun _ φ => φ = .unsaved) (Action.ask .newUuidNoDash) .unsaved :=
    Action.follows_call fun r _ => ⟨.unsaved, .keep trivial, rfl⟩
  unfold chooseFileId
  cases requested with
  | none => exact hnew
  | some fileId =>
    dsimp only
    split_ifs
    · exact hnew
    · exact follows_fail _
    · apply follows_keep (by trivial)
      intro found
      cases found with
      | ok location => exact follows_fail _
      | error e => exact rfl

/-- From the container on: the object, the record and the address. -/
theorem follows_placeUpload (fileId fs userId : String) (parts : SourcePath) (r : Result String)
    (ttl : BlobCapabilities → Int) :
    FollowsIssue d p (fun result φ => φ.Returns result)
      (placeUpload options p userId fileId fs (makePosixKey parts) ttl r) .unsaved := by
  unfold placeUpload
  apply follows_try
  intro container _
  apply follows_keep (by trivial)
  intro store
  apply follows_try
  intro store _
  apply follows_keep (by trivial)
  intro ensured
  apply follows_try
  intro _ _
  apply follows_keep (by trivial)
  intro written
  apply follows_try
  intro _ _
  apply follows_keep (by trivial)
  intro caps
  apply follows_keep (by trivial)
  intro now
  apply follows_ask
  intro saved _
  cases saved with
  | ok a => exact ⟨_, .save, follows_signUpload⟩
  | error e => exact ⟨_, .saveFailed, follows_fail e⟩

theorem follows_issueUploadLocation {userId : String} {requested expiryTime : Option String} :
    FollowsIssue d p (fun result φ => φ.Returns result)
      (issueUploadLocation options p userId requested expiryTime) .unsaved := by
  unfold issueUploadLocation
  dsimp only
  split
  · exact follows_fail _
  split
  · exact follows_fail _
  apply follows_try
  intro ttl _
  apply Action.Follows.bind follows_chooseFileId
  rintro fileId _ rfl
  apply follows_keep (by trivial)
  intro nowMillis
  apply follows_try
  intro fs _
  split
  · apply follows_keep (by trivial)
    intro config
    exact follows_placeUpload fileId fs userId _ _
      fun caps => applySelfSignedTtl options ttl caps (expiryTime.getD "" ≠ "")
  · exact follows_placeUpload fileId fs userId _ _
      fun caps => applySelfSignedTtl options ttl caps (expiryTime.getD "" ≠ "")

theorem LocationRequest.follows (request : LocationRequest) :
    FollowsIssue d p (fun out φ => ∀ result, out = some result → φ.Returns result)
      (request.action p) .unsaved := by
  cases request with
  | issue options userId requested expiryTime =>
    apply Action.Follows.bind follows_issueUploadLocation
    rintro result φ hφ _ ⟨⟩
    exact hφ
  | delete fileId =>
    apply follows_ask
    intro r _
    exact ⟨_, .delete, nofun⟩

end Follows

end FileService.Protocols
