import FileService.App.Upload
import FileService.Domain.Schedule
import FileService.Interaction.Reliance
import FileService.Protocols.Replies
import FileService.Safety.KeyNames

/-!
# The keys of issued and copied objects

An issue and a server-side copy that return have each written a single object.
Its key is the key of an object, to the driver and to the collector, exactly if
neither the user id nor the file id imitates an internal name.
-/
namespace FileService.Safety.IssuedKeys
open FileService.Common FileService.Common.Text FileService.Domain FileService.Interaction
open FileService.App FileService.Protocols

/-- The key that a call writes an object under. -/
def writtenKeys (o : Occurrence ports) : List String :=
  match o.op with
  | .blobs _ (.put ref _ _) => [ref.key]
  | .blobs _ (.copy _ target) => [target.key]
  | _ => []

/-- New identifiers are as the generators make them. -/
def drawsUuids : Assumption ports := fun op =>
  match op with
  | .newUuidNoDash => fun uuid => isUuidNoDash uuid = true
  | _ => fun _ => True

/-- What an action that returns has written, and what it returns. -/
abbrev Writes {α : Type} (x : Domain.Action α) (Q : List String → α → Prop) : Prop :=
  Action.Outputs writtenKeys drawsUuids x Q fun _ _ => True

section Rules
variable {α β : Type} {x : Domain.Action α} {P : α → Prop} {Q : List String → β → Prop} {op : Port}

theorem writes_pure {a : β} (h : Q [] a) : Writes (pure a) Q := Action.outputs_pure h

theorem writes_fail (e : Error) : Writes (Action.fail e) Q := Action.outputs_throw trivial

theorem Writes.imp {Q' : List String → α → Prop} {Q₂ : List String → α → Prop} (hx : Writes x Q')
    (hQ : ∀ keys a, Q' keys a → Q₂ keys a) : Writes x Q₂ :=
  Action.Outputs.imp hx hQ fun _ _ h => h

theorem Writes.silent_bind {f : α → Domain.Action β}
    (hx : Writes x fun keys a => keys = [] ∧ P a) (hf : ∀ a, P a → Writes (f a) Q) :
    Writes (x >>= f) Q :=
  Action.Outputs.bind hx fun keys a h => by
    obtain ⟨rfl, ha⟩ := h
    exact hf a ha

theorem writes_ask (hop : ∀ r, writtenKeys ⟨op, r⟩ = []) :
    Writes (Action.ask op) fun keys r => keys = [] ∧ drawsUuids op r :=
  Action.outputs_call fun r hr => ⟨hop r, hr⟩

theorem writes_tryResult (r : Result α) :
    Writes (Action.tryResult r) fun keys a => keys = [] ∧ r = .ok a := by
  cases r with
  | ok a => exact writes_pure ⟨rfl, rfl⟩
  | error e => exact writes_fail e

theorem writtenKeys_of_idle (hop : Idle op) (r : op.Reply) : writtenKeys ⟨op, r⟩ = [] := by
  cases op with
  | blobs store call =>
    cases call <;> first
      | rfl
      | exact absurd hop.1 id
  | _ => rfl

theorem writes_idle (hx : IdleAction (fun _ => True) x) :
    Writes x fun keys _ => keys = [] ∧ True :=
  (Program.outputs_of_uses hx fun op r hop _ => writtenKeys_of_idle hop r).imp
    fun keys out h => by
      cases out with
      | ok a => exact ⟨h.1, trivial⟩
      | error e => trivial

/-- A call that writes one object, and then no further one. -/
theorem writes_object_bind {key : String} {P : β → Prop} {f : op.Reply → Domain.Action β}
    (hop : ∀ r, writtenKeys ⟨op, r⟩ = [key])
    (hf : ∀ r, Writes (f r) fun keys b => keys = [] ∧ P b) :
    Writes (Action.ask op >>= f) fun keys b => keys = [key] ∧ P b := by
  apply Action.Outputs.bind (Action.outputs_call (Q := fun keys _ => keys = [key]) fun r _ => hop r)
  rintro keys r rfl
  exact (hf r).imp fun keys b h => ⟨by rw [h.1, List.append_nil], h.2⟩

end Rules

section Issue
variable {options : IssuerOptions} {partition userId : String} {requested expiryTime : Option String}

theorem writes_chooseFileId : Writes (chooseFileId partition requested) fun keys fileId =>
    keys = [] ∧ ChosenFrom requested fileId := by
  have hnew : requested.getD "" = "" → Writes (Action.ask .newUuidNoDash) fun keys fileId =>
      keys = [] ∧ ChosenFrom requested fileId := fun hnone =>
    Writes.imp (writes_ask fun _ => rfl) fun _ _ h => ⟨h.1, .inl ⟨hnone, h.2⟩⟩
  unfold chooseFileId
  cases requested with
  | none => exact hnew rfl
  | some fileId =>
    dsimp only
    split_ifs with hempty hvalid
    · exact hnew hempty
    · exact writes_fail _
    · apply (writes_ask fun _ => rfl).silent_bind
      intro found _
      cases found with
      | ok location => exact writes_fail _
      | error e => exact writes_pure ⟨rfl, .inr ⟨rfl, hempty, by simpa using hvalid⟩⟩

theorem idle_shapeSigned {location : FileLocation} {caps : BlobCapabilities} {ttl : Int}
    (signed : SignedLocation) :
    IdleAction (fun _ => True) (shapeSigned location caps ttl signed) := by
  unfold shapeSigned
  split
  · exact idle_pure _
  · exact idle_ask ⟨trivial, id⟩ fun _ => idle_pure _

theorem idle_signUpload {store : StoreId} {ref : ObjectRef} {location : FileLocation}
    {caps : BlobCapabilities} {ttl : Int} : IdleAction (fun _ => True)
      (signUpload options store ref location caps partition ttl) := by
  have hfail : ∀ e, (fun _ : Exit => True) (.error e) := fun _ => trivial
  unfold signUpload
  split
  · exact idle_ask ⟨trivial, id⟩ fun _ => idle_bind (idle_tryResult hfail _) idle_shapeSigned
  · exact idle_ask ⟨trivial, id⟩ fun _ => idle_ask ⟨trivial, id⟩ fun _ =>
      idle_bind (idle_tryResult hfail _) fun _ => idle_shapeSigned _

/-- The object and the location record of an issue. -/
theorem writes_placeUpload (fileId fs : String) (parts : SourcePath) (r : Result String)
    (ttl : BlobCapabilities → Int) :
    Writes (placeUpload options partition userId fileId fs (makePosixKey parts) ttl r)
      fun keys _ => keys = [makePosixKey parts] ∧ True := by
  unfold placeUpload
  apply (writes_tryResult r).silent_bind
  intro container _
  apply (writes_ask fun _ => rfl).silent_bind
  intro store _
  apply (writes_tryResult store).silent_bind
  intro store _
  apply (writes_ask fun _ => rfl).silent_bind
  intro ensured _
  apply (writes_tryResult ensured).silent_bind
  intro _ _
  apply writes_object_bind fun _ => rfl
  intro written
  apply (writes_tryResult written).silent_bind
  intro _ _
  apply (writes_ask fun _ => rfl).silent_bind
  intro caps _
  apply (writes_ask fun _ => rfl).silent_bind
  intro now _
  apply (writes_ask fun _ => rfl).silent_bind
  intro saved _
  apply (writes_tryResult saved).silent_bind
  intro _ _
  exact writes_idle idle_signUpload

/-- An issue writes a single object. -/
theorem writes_issueUploadLocation :
    Writes (issueUploadLocation options partition userId requested expiryTime) fun keys _ =>
      ∃ parts, keys = [makePosixKey parts] ∧ parts.userId = userId ∧
        ChosenFrom requested parts.fileId ∧ DotFreeTime parts := by
  unfold issueUploadLocation
  dsimp only
  split
  · exact writes_fail _
  split
  · exact writes_fail _
  apply (writes_tryResult _).silent_bind
  intro ttl _
  apply writes_chooseFileId.silent_bind
  intro fileId hchosen
  apply (writes_ask fun _ => rfl).silent_bind
  intro nowMillis _
  generalize hparts : SourcePath.mk userId nowMillis
    (formatTimestamp (nowMillis.tdiv 1000) (nowMillis.tmod 1000)) fileId = parts
  apply (writes_tryResult _).silent_bind
  intro fs hfs
  have hissued : ∀ keys (_ : LocationResult), keys = [makePosixKey parts] ∧ True →
      ∃ parts, keys = [makePosixKey parts] ∧ parts.userId = userId ∧
        ChosenFrom requested parts.fileId ∧ DotFreeTime parts := by
    rintro keys - ⟨rfl, -⟩
    refine ⟨parts, rfl, by rw [← hparts], by rwa [← hparts], ?_⟩
    unfold makeFileSource at hfs
    dsimp only at hfs
    split_ifs at hfs with huser hfile hepoch hts
    exact dotFreeTime (by omega) (by simpa using hts)
  split
  · apply (writes_ask fun _ => rfl).silent_bind
    intro config _
    apply Writes.imp _ hissued
    exact writes_placeUpload fileId fs parts _
      fun caps => applySelfSignedTtl options ttl caps (expiryTime.getD "" ≠ "")
  · apply Writes.imp _ hissued
    exact writes_placeUpload fileId fs parts _
      fun caps => applySelfSignedTtl options ttl caps (expiryTime.getD "" ≠ "")

end Issue

section Copy
variable {u : UseCasePorts} {caller : CallerContext} {source target : String} {zone : StorageZone}

theorem writes_audited {α : Type} {operation objectId : String}
    {body : Domain.Action (Option String × α)} {Q : List String → α → Prop}
    (hbody : Writes body fun keys out => Q keys out.2) :
    Writes (audited u caller operation objectId body) Q := by
  apply Action.Outputs.exitingWith hbody
  · rintro keys ⟨successId, a⟩ hQ
    have hafter : ∀ {x : Domain.Action Unit}, IdleAction (fun _ => True) x →
        Writes (x >>= fun _ => pure a) fun after b => Q (keys ++ after) b := fun hx =>
      (writes_idle hx).silent_bind fun _ _ => writes_pure (by simpa using hQ)
    cases successId with
    | none => exact hafter (idle_recordFailure ..)
    | some id => exact hafter (idle_recordAudit (fun _ => trivial) ..)
  · intro keys exit _
    cases exit with
    | diverged => exact Action.outputs_throw trivial
    | error e => exact (writes_idle (idle_recordFailure ..)).silent_bind fun _ _ => writes_fail e
    | exception what =>
      exact (writes_idle (idle_recordFailure ..)).silent_bind fun _ _ => Action.outputs_throw trivial

/-- A copy writes its target only. -/
theorem writes_copyBetweenZones {partition : String} {source target : ObjectRef}
    {sourceZone targetZone : StorageZone} :
    Writes (copyBetweenZones partition source target sourceZone targetZone) fun keys _ =>
      keys = [target.key] ∧ True := by
  have htry : ∀ {V : Type} (r : Result V), Writes (Action.tryResult r) fun keys _ =>
      keys = [] ∧ True := fun r => (writes_tryResult r).imp fun _ _ h => ⟨h.1, trivial⟩
  apply (writes_ask fun _ => rfl).silent_bind
  intro fromStore _
  apply (writes_tryResult fromStore).silent_bind
  intro fromStore _
  apply (writes_ask fun _ => rfl).silent_bind
  intro toStore _
  apply (writes_tryResult toStore).silent_bind
  intro toStore _
  apply (writes_ask fun _ => rfl).silent_bind
  intro ensured _
  apply (writes_tryResult ensured).silent_bind
  intro _ _
  split
  · exact writes_object_bind (fun _ => rfl) fun copied => htry copied
  · apply (writes_ask fun _ => rfl).silent_bind
    intro stat _
    apply (writes_tryResult stat).silent_bind
    intro stat _
    apply (writes_idle (idle_readAll (fun _ => trivial) ..)).silent_bind
    intro data _
    apply writes_object_bind fun _ => rfl
    intro written
    apply (writes_tryResult written).silent_bind
    intro _ _
    apply (writes_ask fun _ => rfl).silent_bind
    intro stat _
    exact htry stat

/-- A server-side copy writes a single object, at the key that its target names. -/
theorem writes_serverSideCopy : Writes (serverSideCopy u caller source target zone) fun keys _ =>
    ∃ parts, parseFileSource target = .ok parts ∧ keys = [makePosixKey parts] := by
  apply writes_audited
  apply (writes_idle (idle_authorizeCallerAny (fun _ => trivial) ..)).silent_bind
  intro _ _
  dsimp only
  split
  · exact writes_fail _
  split
  · exact writes_fail _
  apply (writes_ask fun _ => rfl).silent_bind
  intro found _
  apply (writes_tryResult found).silent_bind
  intro sourceLocation _
  apply (writes_idle (idle_objectRefFromLocation (fun _ => trivial) _)).silent_bind
  intro fromRef _
  apply (writes_tryResult _).silent_bind
  intro parts hparts
  apply (writes_ask fun _ => rfl).silent_bind
  intro config _
  apply (writes_tryResult _).silent_bind
  intro container _
  apply Action.Outputs.bind writes_copyBetweenZones
  rintro keys stat ⟨rfl, -⟩
  exact writes_pure ⟨parts, hparts, rfl⟩

end Copy

/-! ## Requests that make a key -/

inductive KeyRequest where
  | issueUploadLocation (options : IssuerOptions) (partition userId : String)
      (requestedFileId expiryTime : Option String)
  | serverSideCopy (u : UseCasePorts) (caller : CallerContext)
      (sourceFileSource targetFileSource : String) (targetZone : StorageZone)

namespace KeyRequest

/-- The request returns after these calls. -/
def Accepted (t : Trace ports) : KeyRequest → Prop
  | issueUploadLocation options partition userId requested expiryTime => ∃ result,
      (App.issueUploadLocation options partition userId requested expiryTime).run.Emits t
        (.ok result)
  | serverSideCopy u caller source target zone => ∃ result,
      (App.serverSideCopy u caller source target zone).run.Emits t (.ok result)

/-- The texts of the request do not imitate internal names. -/
def Unambiguous : KeyRequest → Prop
  | issueUploadLocation _ _ userId requested _ =>
    containsText userId Posix.tempMarker = false ∧
      endsWith (requested.getD "") Posix.sidecarSuffix = false
  | serverSideCopy _ _ _ target _ =>
    containsText target Posix.tempMarker = false ∧ endsWith target Posix.sidecarSuffix = false

end KeyRequest

/-- All keys that objects are written under are keys of objects. -/
def WritesPlain (t : Trace ports) : Prop := ∀ key ∈ t.collected writtenKeys, Plain key

theorem writesPlain_singleton {t : Trace ports} {key : String}
    (h : t.collected writtenKeys = [key]) :
    WritesPlain t ↔ ¬Posix.isInternalKey key = true := by
  rw [WritesPlain, h, List.forall_mem_singleton, plain_iff, Bool.not_eq_true]

/-- An accepted request writes plain keys exactly if its texts do not imitate internal names. -/
theorem issued_keys_plain_iff {request : KeyRequest} {t : Trace ports} (h : request.Accepted t)
    (hids : ∀ o ∈ t, drawsUuids o.op o.reply) : WritesPlain t ↔ request.Unambiguous := by
  cases request with
  | issueUploadLocation options partition userId requested expiryTime =>
    obtain ⟨result, hemits⟩ := h
    obtain ⟨parts, hkeys, rfl, hchosen, htime⟩ := writes_issueUploadLocation t _ hemits hids
    rw [writesPlain_singleton hkeys, isInternalKey_iff htime, sidecar_of_chosen hchosen]
    simp [KeyRequest.Unambiguous, not_temp_of_chosen hchosen]
  | serverSideCopy u caller source target zone =>
    obtain ⟨result, hemits⟩ := h
    obtain ⟨parts, hparts, hkeys⟩ := writes_serverSideCopy t _ hemits hids
    obtain ⟨htime, hmarker, hsuffix⟩ := parseFileSource_names hparts
    rw [writesPlain_singleton hkeys, isInternalKey_iff htime]
    simp only [KeyRequest.Unambiguous, ← Bool.not_eq_true, hmarker, hsuffix]
    simp only [not_or, and_assoc]

/-! ## Sample requests -/

/-- The answers of the sample deployment; the identifier drawn is all zeros. -/
def sampleAnswers (op : Port) : op.Reply :=
  (stagedWorld.apply sampleDeployment (String.ofList (List.replicate 32 '0')) op).1

theorem drawsUuids_sampleAnswers (op : Port) : drawsUuids op (sampleAnswers op) := by
  cases op with
  | newUuidNoDash =>
    have huuid : isUuidNoDash (String.ofList (List.replicate 32 '0')) = true := by decide +kernel
    exact huuid
  | _ => trivial

def sampleIssue (userId fileId : String) : Domain.Action LocationResult :=
  issueUploadLocation {} "p" userId (some fileId) none

/-- The calls of an issue on the sample deployment. -/
def issueCalls (userId fileId : String) : Trace ports :=
  ((sampleIssue userId fileId).run.answered sampleAnswers).1

def issueRequest (userId fileId : String) : KeyRequest :=
  .issueUploadLocation {} "p" userId (some fileId) none

theorem issueRequest_accepted {userId fileId : String}
    (h : ((sampleIssue userId fileId).run.answered sampleAnswers).2.isOk = true) :
    (issueRequest userId fileId).Accepted (issueCalls userId fileId) := by
  have hemits := Program.emits_answered sampleAnswers (sampleIssue userId fileId).run
  cases hout : ((sampleIssue userId fileId).run.answered sampleAnswers).2 with
  | error exit =>
    rw [hout] at h
    cases h
  | ok result =>
    rw [hout] at hemits
    exact ⟨result, hemits⟩

theorem issueCalls_drawUuids (userId fileId : String) :
    ∀ o ∈ issueCalls userId fileId, drawsUuids o.op o.reply := by
  intro o ho
  rw [Program.reply_of_mem_answered ho]
  exact drawsUuids_sampleAnswers o.op

/-- An ordinary request. -/
theorem ordinary_issue_plain : WritesPlain (issueCalls "u" "a.txt") ↔
    (issueRequest "u" "a.txt").Unambiguous :=
  issued_keys_plain_iff (issueRequest_accepted (by decide +kernel)) (issueCalls_drawUuids _ _)

/-- The file ids `x` and `x.fssmeta` are both accepted, and the object of the second is the
sidecar of the first. A user id that contains the marker makes every object a temporary file. -/
theorem issued_key_imitates :
    (issueRequest "u" "x").Accepted (issueCalls "u" "x") ∧
    (issueRequest "u" "x.fssmeta").Accepted (issueCalls "u" "x.fssmeta") ∧
    (issueCalls "u" "x.fssmeta").collected writtenKeys =
      ((issueCalls "u" "x").collected writtenKeys).map Posix.sidecarOf ∧
    ¬WritesPlain (issueCalls "u" "x.fssmeta") ∧
    (issueRequest "a.tmp.b" "x").Accepted (issueCalls "a.tmp.b" "x") ∧
    ¬WritesPlain (issueCalls "a.tmp.b" "x") := by
  have hsidecar : (issueCalls "u" "x.fssmeta").collected writtenKeys =
      ["u/1614784413120-2021-03-03-15-13-33-120/x.fssmeta"] := by decide +kernel
  have htemp : (issueCalls "a.tmp.b" "x").collected writtenKeys =
      ["a.tmp.b/1614784413120-2021-03-03-15-13-33-120/x"] := by decide +kernel
  refine ⟨issueRequest_accepted (by decide +kernel), issueRequest_accepted (by decide +kernel),
    by decide +kernel, ?_, issueRequest_accepted (by decide +kernel), ?_⟩
  · rw [writesPlain_singleton hsidecar, not_not]
    decide +kernel
  · rw [writesPlain_singleton htemp, not_not]
    decide +kernel

end FileService.Safety.IssuedKeys
