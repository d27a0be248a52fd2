import FileService.App.CreateFileMetadata
import FileService.App.Upload
import FileService.Checksums.Create

/-!
# The use cases keep the invariant

An upload address takes a file id that no location record has, an upload writes
to a file source that is not ready, a copy of a file writes over itself or over
nothing registered, and a deletion takes the record before the object.
-/
namespace FileService.Checksums
open FileService.Common FileService.Common.Text FileService.Domain FileService.Interaction
open FileService.App FileService.Infra FileService.Protocols

variable {d : Deployment} {omitted : String → String → Prop} {w w' : World} {α β : Type}
variable {p fs : String} {store : StoreId} {source target : ObjectRef} {location : FileLocation}

section Steps
variable {P : World → Prop} {f : α → Action β} {Q : β → World → Prop} {E : Exit → World → Prop}

/-- Idle steps before the rest of a use case. -/
theorem ensures_idle_bind {x : Action α} (hP : Stable P) (hx : IdleAction (fun _ => True) x)
    (hf : ∀ a, Action.Ensures (served d) P (f a) Q E) (hE : ∀ exit w, P w → E exit w) :
    Action.Ensures (served d) P (x >>= f) Q E :=
  ((ensures_idle hP hx).mono (fun _ hw => hw) (fun _ _ hw => hw)
    fun exit w hw => hE exit w hw.2).bind hf

/-- A quiet call whose reply is not remembered. -/
theorem ensures_quiet_bind {op : Port} {f : op.Reply → Action β} (hP : Stable P) (hop : op.Quiet)
    (hf : ∀ r, Action.Ensures (served d) P (f r) Q E) :
    Action.Ensures (served d) P (Action.ask op >>= f) Q E :=
  .bind (ensures_ask hP fun w _ w' hw hexec => hP w w' (hexec.quiet hop) hw) hf

end Steps

section Locations

theorem houses_zone {zone : StorageZone} {container : String}
    (h : containerOf p zone (World.partitionConfig d.registry p) = .ok container) :
    Houses d p (d.store p zone) container :=
  ⟨zone, rfl, .inl h⟩

theorem Sound.houses (h : Sound d omitted w)
    (hl : w.locations.byFileSource p fs = some location) (href : physicalRef location = .ref source) :
    Houses d p (d.store p location.zone) source.container := by
  obtain ⟨hid, -⟩ := InMemoryLocationRepository.byFileSource_eq_some.mp hl
  obtain ⟨container, parts, hparts, hhouses, -⟩ := h.placed hid
  have hsame := href.symm.trans hparts
  injection hsame with hsame
  rw [hsame]
  exact hhouses

/-- A copy to the key of the source in the persistent container writes over the object of no
other record, and over its own only with its own bytes. -/
theorem Sound.copyAdmitted (h : AllSound d w)
    (hl : w.locations.byFileSource p fs = some location) (href : physicalRef location = .ref source)
    (hkey : target.key = source.key)
    (hcontainer : containerOf p .persistent (World.partitionConfig d.registry p) =
      .ok target.container) :
    CopyAdmitted d w (d.store p location.zone) (d.store p .persistent) source target := by
  rintro data hdata q s v ref hv hstate hsettled hstore ⟨hsame, hsamekey⟩
  obtain ⟨location', hl', hzone, href', hcontainer'⟩ := hsettled
  have hshared : p ≠ q → Shares d p q := fun _ => ⟨d.store p .persistent, target.container,
    houses_persistent hcontainer, hstore ▸ hsame ▸ houses_persistent hcontainer'⟩
  obtain ⟨rfl, rfl, rfl⟩ := h.same_location hl hl' href href' (hkey.symm.trans hsamekey) hshared
  obtain rfl : source = ref := by simpa using href.symm.trans href'
  rw [hzone] at hdata
  obtain ⟨ref, ⟨location', hl'', -, href'', -⟩, hattests⟩ := h.truthful p fs id v hv hstate
  have hlocation := hl.symm.trans hl''
  cases hlocation
  obtain rfl : source = ref := by simpa using href.symm.trans href''
  unfold Copied at hdata
  split at hdata
  · rename_i o ho
    rw [hdata]
    exact hattests o ho
  · exact absurd rfl hdata.1

end Locations

section Upload
variable {u : UseCasePorts} {caller : CallerContext} {request : UploadStreamRequest}
variable (hlocal : d.backend = .local) (hhash : ∀ data, d.sha256Hex data ≠ "")
variable (hu : u.sha256Hex = d.sha256Hex)
include hlocal hhash hu

theorem keeps_registerUpload (polls : Nat) :
    Keeps d (AllSound d) (registerUpload polls u caller request) := by
  unfold registerUpload
  split
  · exact keeps_pure
  · split
    · exact keeps_throw
    · split
      · exact keeps_throw
      · exact keeps_createFileMetadata hlocal hhash hu polls _

/-- An upload to a file source that is not ready keeps the invariant. -/
theorem ensures_uploadFile (polls : Nat) (body : Bytes) :
    Action.Ensures (served d)
      (SoundWith d (fun _ _ => False) fun metadata _ =>
        Unready metadata caller.partition request.fileSource)
      (uploadFile polls u caller request body) (fun _ => AllSound d) fun _ => AllSound d := by
  refine ensures_audited ?_ (fun _ => stable_sound) (fun _ => stable_sound) fun _ _ _ hw => hw
  refine ensures_idle_bind stable_soundWith (idle_authorizeCaller (fun _ => trivial) ..)
    (fun _ => ?_) fun _ w hw => hw.1
  dsimp only
  split
  · exact Action.ensures_throw fun w hw => hw.1
  · refine .bind (ensures_findByFileSource stable_soundWith) fun r => ?_
    cases r with
    | error e => exact Action.ensures_throw fun w hw => hw.2.1
    | ok location =>
      refine .bind (ensures_objectRef fun _ w hw => hw.2.1) fun ref => ?_
      split
      · exact Action.ensures_throw fun w hw => hw.2.2.1
      · split
        · exact Action.ensures_throw fun w hw => hw.2.2.1
        · refine .mono (P := fun w => SoundWith d (fun _ _ => False) (fun _ _ => True) w ∧
            Admits d w (d.store caller.partition location.zone) ref body) ?_ ?_ (fun _ _ hw => hw)
            fun _ _ hw => hw
          · have hstable : Stable fun w => SoundWith d (fun _ _ => False) (fun _ _ => True) w ∧
                Admits d w (d.store caller.partition location.zone) ref body :=
              stable_soundWith.and fun w w' hsame h => h.congr hsame.metadata hsame.locations
            refine ensures_try (ensures_forPartition hstable) (fun store => .of_fact
              (fun w hw => hw.1) fun hstore => ?_) fun _ _ hw => hw.1.1
            subst hstore
            refine .mono (ensures_try (ensures_ensureContainer hstable) (fun _ => ?_)
              fun _ _ hw => hw.1.1) (fun w hw => hw.2) (fun _ _ hw => hw) fun _ _ hw => hw
            refine .bind (.mono ensures_put (fun w hw => hw.2) (fun _ _ hw => hw)
              fun _ _ hw => hw) fun r => .mono (P := AllSound d) ?_ (fun w hw => hw.1.1)
                (fun _ _ hw => hw) fun _ _ hw => hw
            refine .bind keeps_tryResult fun _ => ?_
            refine .bind (keeps_harmless hlocal trivial) fun r => .bind keeps_tryResult fun st => ?_
            have hrest : ∀ result : String → UploadStreamResult,
                Keeps d (AllSound d) (do
                  let metadataRecordId ← registerUpload polls u caller request
                  return (some location.fileId, result metadataRecordId)) := fun _ =>
              .bind (keeps_registerUpload hlocal hhash hu polls) fun _ => keeps_pure
            split
            · exact .bind (keeps_idle (X := fun _ => True) stable_sound
                (idle_computeChecksumStreaming (fun _ => trivial) ..)) fun sum => hrest _
            · exact .bind keeps_pure fun sum => hrest _
          · rintro w ⟨href, hl, hsound, hunready⟩
            exact ⟨⟨hsound, trivial⟩, hsound.admits (hl location rfl) href rfl
              (hsound.houses (hl location rfl) href) hunready body⟩

end Upload

section Issue
variable {requested : Option String} {id : String}

/-- No location record of the partition has the file id, and none of a partition with a
container in common. -/
def Free (d : Deployment) (p id : String) (locations : InMemoryLocationRepository) : Prop :=
  locations.byFileId p id = none ∧
    ∀ q l, locations.byFileId q id = some l → p ≠ q → ¬Shares d p q

/-- The state between the choice of a file id and the save of its location record. -/
abbrev Choosing (d : Deployment) (p id : String) : World → Prop :=
  SoundWith d (fun _ _ => False) fun _ locations => Free d p id locations

/-- A requested file id is not in use by a partition with a container in common. -/
def RequestFree (d : Deployment) (w : World) (p : String) (requested : Option String) : Prop :=
  ∀ id, requested = some id →
    ∀ q l, w.locations.byFileId q id = some l → p ≠ q → ¬Shares d p q

theorem stable_requestFree : Stable fun w => RequestFree d w p requested := by
  intro w w' hsame h
  simpa only [RequestFree, hsame.locations] using h

theorem ensures_chooseFileId {P : World → Prop} (hP : Stable P) :
    Action.Ensures (served d) (fun w => P w ∧ RequestFree d w p requested)
      (chooseFileId p requested) (fun id w => P w ∧ Free d p id w.locations) fun _ => P := by
  have hstable : Stable fun w => P w ∧ RequestFree d w p requested := hP.and stable_requestFree
  have hdrawn : Action.Ensures (served d) (fun w => P w ∧ RequestFree d w p requested)
      (Action.ask .newUuidNoDash) (fun id w => P w ∧ Free d p id w.locations) fun _ => P := by
    refine ensures_ask hstable fun w r w' hw hexec =>
      ⟨hP w w' (hexec.quiet trivial) hw.1, ?_⟩
    obtain ⟨uuid, hfresh, rfl, rfl⟩ := World.exec_none hexec
    obtain ⟨-, -, hnone⟩ := hfresh rfl
    refine ⟨hnone p, fun q l hl => ?_⟩
    have hsame := hl.symm.trans (hnone q)
    cases hsame
  unfold chooseFileId
  cases requested with
  | none => exact hdrawn
  | some fileId =>
    dsimp only
    split
    · exact hdrawn
    · split
      · exact Action.ensures_throw fun w hw => hw.1
      · refine .bind (Q := fun r w => (∀ e, r = .error e → w.locations.byFileId p fileId = none) ∧
          P w ∧ RequestFree d w p (some fileId)) ?_ fun r => ?_
        · refine ensures_quiet hstable (fun r w w' hsame h e he => by rw [hsame.locations]; exact h e he)
            trivial fun w r w' hw hexec e he => ?_
          obtain ⟨uuid, -, hr, -⟩ := World.exec_none hexec
          cases hl : w.locations.byFileId p fileId with
          | none => rfl
          | some l =>
            have hfound := InMemoryLocationRepository.find_eq_ok.mpr hl
            rw [he] at hr
            have hsame := hr.trans hfound
            cases hsame
        · cases r with
          | ok l => exact Action.ensures_throw fun w hw => hw.2.1
          | error e =>
            exact Action.ensures_pure fun w hw => ⟨hw.2.1, hw.1 e rfl, hw.2.2 fileId rfl⟩

/-- The key of a new file id belongs to no ready record. -/
theorem Sound.admits_free (h : Sound d omitted w) (hfree : Free d p id w.locations) {parts : SourcePath}
    (hid : parts.fileId = id) (hsafe : isSafeSegment parts.fileId = true)
    (hkey : target.key = makePosixKey parts) (hhouses : Houses d p store target.container)
    (data : Bytes) : Admits d w store target data := by
  rintro q s v ref hv hstate ⟨location', hl', -, href', hcontainer⟩ hstore ⟨hsame, hsamekey⟩
  obtain ⟨hid', -⟩ := InMemoryLocationRepository.byFileSource_eq_some.mp hl'
  obtain ⟨container, parts', hparts', -, hfile', hsafe'⟩ := h.placed hid'
  have hrefs := href'.symm.trans hparts'
  injection hrefs with hrefs
  have hids : parts.fileId = parts'.fileId :=
    key_injective hsafe hsafe' (by rw [← hkey, hsamekey, hrefs])
  rw [← hfile', ← hids, hid] at hid'
  by_cases hp : p = q
  · rw [← hp, hfree.1] at hid'
    cases hid'
  · exact absurd ⟨store, target.container, hhouses, hstore ▸ hsame ▸ houses_persistent hcontainer⟩
      (hfree.2 q location' hid' hp)

/-- The new location record of an upload. -/
theorem Sound.issued (h : AllSound d w) (hfree : Free d p location.fileId w.locations)
    (hplaced : Placed d p location) {r : Result Unit}
    (hexec : World.Exec d .none w (.locations (.save p location)) r w') :
    AllSound d w' ∧ (r = .ok () → ∀ old, w'.locations.byFileId p location.fileId = some old →
      Unready w'.metadata p old.fileSource) := by
  obtain ⟨hmetadata, hremote, hstores⟩ := hexec.locations_frame
  rcases hexec.saveLocation with ⟨hsame, e, rfl⟩ | ⟨hfs, howner, hput⟩
  · exact ⟨stable_sound w w' ⟨hmetadata, hremote, hsame, World.object_of_stores hstores⟩ h, by simp⟩
  · have hunready : Unready w.metadata p location.fileSource := by
      intro v hv hstate
      obtain ⟨ref, ⟨l, hl, -⟩, -⟩ := h.truthful p location.fileSource id v hv hstate
      obtain ⟨hid, hsource⟩ := InMemoryLocationRepository.byFileSource_eq_some.mp hl
      have hsame := howner l.fileId ((w.locations.inverse _ _ _).mpr ⟨l, hid, hsource⟩)
      rw [hsame, hfree.1] at hid
      cases hid
    constructor
    · have hsound := h.of_put hmetadata hstores hput hplaced hfree.2 (fun old hold => by
        rw [hfree.1] at hold
        cases hold)
      refine hsound.of_truthful fun q s _ homitted v hv hstate => ?_
      rcases homitted with hfalse | ⟨rfl, rfl⟩
      · exact hfalse.elim
      · rw [hmetadata] at hv
        exact absurd hstate (hunready v hv)
    · intro _ old hold
      rw [hput, InMemoryLocationRepository.byFileId_put, if_pos ⟨rfl, rfl⟩] at hold
      cases hold
      rw [hmetadata]
      exact hunready

theorem physicalRef_issued {fileId fileSource userId : String} {ref : ObjectRef}
    {caps : BlobCapabilities} {now : Int} :
    physicalRef (issuedLocation fileId fileSource userId ref caps now) =
      .ref { container := ref.container, key := ref.key } := by
  simp [physicalRef, issuedLocation, extraContainer, extraObjectKey, extraDriverName,
    Json.Value.asString?]

theorem safe_of_makeFileSource {parts : SourcePath} (h : makeFileSource parts = .ok fs) :
    isSafeSegment parts.fileId = true := by
  unfold makeFileSource at h
  dsimp only at h
  split_ifs at h with huser hfile
  have hboth : isSafeSegment parts.fileId = true ∧ byteSize parts.fileId ≤ maxFileIdLength := by
    simpa using hfile
  exact hboth.1

variable {options : IssuerOptions}

theorem ensures_shapeSigned {P : World → Prop} (hP : Stable P) {caps : BlobCapabilities} {ttl : Int}
    (signed : SignedLocation) :
    Action.Ensures (served d) P (shapeSigned location caps ttl signed)
      (fun result w => result.fileId = location.fileId ∧ P w) fun _ => P := by
  unfold shapeSigned
  split
  · exact Action.ensures_pure fun w hw => ⟨rfl, hw⟩
  · exact ensures_quiet_bind hP trivial fun now => Action.ensures_pure fun w hw => ⟨rfl, hw⟩

/-- `SignAndShape` changes nothing and answers with the file id of the location record. -/
theorem ensures_signUpload {P : World → Prop} (hP : Stable P) {caps : BlobCapabilities}
    {ref : ObjectRef} {ttl : Int} :
    Action.Ensures (served d) P (signUpload options store ref location caps p ttl)
      (fun result w => result.fileId = location.fileId ∧ P w) fun _ => P := by
  unfold signUpload
  split
  · exact ensures_quiet_bind hP trivial fun r => .bind keeps_tryResult (ensures_shapeSigned hP)
  · exact ensures_quiet_bind hP trivial fun now => ensures_quiet_bind hP trivial fun r =>
      .bind keeps_tryResult fun url => ensures_shapeSigned hP _

/-- What an issue leaves: the invariant, and a file id whose file source is not ready. -/
def Issued (d : Deployment) (p : String) (fileId : String) : World → Prop :=
  SoundWith d (fun _ _ => False) fun metadata locations =>
    ∀ old, locations.byFileId p fileId = some old → Unready metadata p old.fileSource

/-- The empty object and the location record of a new file id. -/
theorem ensures_placeUpload {userId fileId : String} {parts : SourcePath} {r : Result String}
    (ttl : BlobCapabilities → Int) (hfs : makeFileSource parts = .ok fs) (hfile : parts.fileId = fileId)
    (hhouses : ∀ container, r = .ok container → Houses d p (d.store p .staging) container) :
    Action.Ensures (served d) (Choosing d p fileId)
      (placeUpload options p userId fileId fs (makePosixKey parts) ttl r)
      (fun result => Issued d p result.fileId) fun _ => AllSound d := by
  have hstable : Stable (Choosing d p fileId) := stable_soundWith
  have hsafe := safe_of_makeFileSource hfs
  unfold placeUpload
  refine .bind (Q := fun container w => r = .ok container ∧ Choosing d p fileId w)
    (ensures_tryResult (fun c _ hc hw => ⟨hc, hw⟩) fun _ _ _ hw => hw.1) fun container => ?_
  refine .of_fact (fun w hw => hhouses container hw.1) fun hhouses => ?_
  refine .mono (P := Choosing d p fileId)
    (ensures_try (ensures_forPartition hstable) (fun store => .of_fact (fun w hw => hw.1)
      fun hstore => ?_) fun _ _ hw => hw.1) (fun w hw => hw.2) (fun _ _ hw => hw) fun _ _ hw => hw
  subst hstore
  refine .mono (P := Choosing d p fileId)
    (ensures_try (ensures_ensureContainer hstable) (fun _ => ?_) fun _ _ hw => hw.1)
    (fun w hw => hw.2) (fun _ _ hw => hw) fun _ _ hw => hw
  refine .bind (ensures_put.mono (fun w hw => ⟨hw.2, hw.2.1.admits_free hw.2.2 hfile hsafe rfl
    hhouses []⟩) (fun _ _ hw => hw.1) fun _ _ hw => hw) fun r => ?_
  refine .bind (Q := fun _ => Choosing d p fileId)
    (ensures_tryResult (fun _ _ _ hw => hw) fun _ _ _ hw => hw.1) fun _ => ?_
  refine ensures_quiet_bind hstable trivial fun caps => ensures_quiet_bind hstable trivial fun now => ?_
  have hplaced : Placed d p (issuedLocation fileId fs userId
      { container, key := makePosixKey parts } caps now) :=
    ⟨container, parts, physicalRef_issued, hhouses, hfile, hsafe⟩
  refine .bind (Q := fun r w => AllSound d w ∧ (r = .ok () → Issued d p fileId w))
    (ensures_ask hstable fun w r w' hw hexec => ?_) fun r => .bind (Q := fun _ => Issued d p fileId)
      (ensures_tryResult (fun _ _ hr hw => hw.2 hr) fun _ _ _ hw => hw.1) fun _ => ?_
  · obtain ⟨hsound, hunready⟩ := hw.1.issued hw.2 hplaced hexec
    exact ⟨hsound, fun hr => ⟨hsound, hunready hr⟩⟩
  · exact (ensures_signUpload stable_soundWith).mono (fun _ hw => hw)
      (fun result w hw => hw.1 ▸ hw.2) fun _ _ hw => hw.1

theorem ensures_issueUploadLocation {userId : String} {expiryTime : Option String} :
    Action.Ensures (served d) (fun w => AllSound d w ∧ RequestFree d w p requested)
      (issueUploadLocation options p userId requested expiryTime)
      (fun result => Issued d p result.fileId) fun _ => AllSound d := by
  unfold issueUploadLocation
  dsimp only
  split
  · exact Action.ensures_throw fun w hw => hw.1
  · split
    · exact Action.ensures_throw fun w hw => hw.1
    · refine .bind (Q := fun _ w => AllSound d w ∧ RequestFree d w p requested)
        (ensures_tryResult (fun _ _ _ hw => hw) fun _ _ _ hw => hw.1) fun ttl => ?_
      refine .bind (ensures_chooseFileId stable_sound) fun fileId => ?_
      have hstable : Stable (Choosing d p fileId) := stable_soundWith
      refine ensures_quiet_bind hstable trivial fun nowMillis => ?_
      generalize hparts : SourcePath.mk userId nowMillis
        (formatTimestamp (nowMillis.tdiv 1000) (nowMillis.tmod 1000)) fileId = parts
      have hfile : parts.fileId = fileId := by rw [← hparts]
      refine .bind (Q := fun fs w => makeFileSource parts = .ok fs ∧
        Choosing d p fileId w)
        (ensures_tryResult (fun fs _ hfs hw => ⟨hfs, hw⟩) fun _ _ _ hw => hw.1) fun fs => ?_
      refine .of_fact (fun w hw => hw.1) fun hfs => ?_
      refine .mono (P := Choosing d p fileId) ?_ (fun w hw => hw.2) (fun _ _ hw => hw)
        fun _ _ hw => hw
      split
      · refine .bind (ensures_containerFor hstable) fun r => .of_fact (fun w hw => hw.1)
          fun hr => ?_
        refine .mono (P := Choosing d p fileId) ?_ (fun w hw => hw.2) (fun _ _ hw => hw)
          fun _ _ hw => hw
        exact ensures_placeUpload (fun caps => applySelfSignedTtl options ttl caps
          (expiryTime.getD "" ≠ "")) hfs hfile fun c hc => houses_zone (hr c hc)
      · exact ensures_placeUpload (fun caps => applySelfSignedTtl options ttl caps
          (expiryTime.getD "" ≠ "")) hfs hfile fun c hc => ⟨.staging, rfl, .inr hc⟩

end Issue

section Removal
variable {G : InMemoryMetadataRepository → InMemoryLocationRepository → Prop}
/-- The location record of a file source that is not ready may go. -/
theorem ensures_deleteLocation {id : String} {E : Exit → World → Prop} :
    Action.Ensures (served d) (Issued d p id) (Action.ask (.locations (.delete p id)))
      (fun _ => AllSound d) E := by
  refine ensures_ask stable_soundWith fun w r w' ⟨hsound, hunready⟩ hexec => ?_
  obtain ⟨hmetadata, hremote, hstores⟩ := hexec.locations_frame
  rcases hexec.deleteLocation with ⟨hsame, -⟩ | ⟨old, hold, hids, hsources⟩
  · exact stable_sound w w' ⟨hmetadata, hremote, hsame, World.object_of_stores hstores⟩ hsound
  · refine (hsound.of_deletion hmetadata hstores hids hsources).of_truthful
      fun q s _ homitted v hv hstate => ?_
    rcases homitted with hfalse | ⟨rfl, rfl⟩
    · exact hfalse.elim
    · rw [hmetadata] at hv
      exact absurd hstate (hunready old hold v hv)

variable (hlocal : d.backend = .local)
include hlocal

theorem keeps_remove : Keeps d (SoundWith d omitted G) (Action.ask (.blobs store (.remove target))) := by
  refine keeps_ask stable_soundWith fun w r w' hw hexec => ?_
  obtain ⟨hmetadata, -, hlocations⟩ := hexec.blobs_frame
  refine ⟨hw.1.harmless hlocal hexec trivial, ?_⟩
  rw [hmetadata, hlocations]
  exact hw.2

omit hlocal in
theorem keeps_attemptRef {P : World → Prop} (hP : Stable P) (stored : FileLocation) :
    Keeps d P (Action.attempt (objectRefFromLocation stored)) :=
  .attempt (keeps_idle (X := fun _ => True) hP (idle_objectRefFromLocation (fun _ => trivial) _))

omit hlocal in
theorem ensures_deleted {id : String} : Action.Ensures (served d) (Issued d p id) (do
    let _ ← Action.ask (.locations (.delete p id))) (fun _ => AllSound d) fun _ => AllSound d :=
  .bind ensures_deleteLocation fun _ => keeps_pure

/-- `RemoveIssuedUpload` takes away the object and then the location record. -/
theorem ensures_removeIssued {caller : CallerContext} {id : String} :
    Action.Ensures (served d) (Issued d caller.partition id) (removeIssuedUpload caller id)
      (fun _ => AllSound d) fun _ => AllSound d := by
  unfold removeIssuedUpload
  refine ensures_quiet_bind stable_soundWith trivial fun r => ?_
  cases r with
  | error e => exact ensures_deleted
  | ok stored =>
    refine .bind ((keeps_attemptRef stable_soundWith stored).mono (fun _ hw => hw)
      (fun _ _ hw => hw) fun _ w hw => hw.1) fun r => ?_
    cases r with
    | error e => exact ensures_deleted
    | ok ref =>
      refine ensures_quiet_bind stable_soundWith trivial fun r => ?_
      cases r with
      | error e => exact ensures_deleted
      | ok store =>
        exact .bind ((keeps_remove hlocal).mono (fun _ hw => hw) (fun _ _ hw => hw)
          fun _ w hw => hw.1) fun _ => ensures_deleted

/-- `GetUploadLocation::Execute` keeps the invariant for a file id that is free. -/
theorem ensures_getUploadLocation {options : IssuerOptions} {u : UseCasePorts}
    {caller : CallerContext} {requested expiryTime : Option String} :
    Action.Ensures (served d) (fun w => AllSound d w ∧ RequestFree d w caller.partition requested)
      (getUploadLocation options u caller requested expiryTime) (fun _ => AllSound d)
      fun _ => AllSound d := by
  refine ensures_audited ?_ (fun _ => stable_sound) (fun _ => stable_sound) fun _ _ _ hw => hw
  refine ensures_idle_bind (stable_sound.and stable_requestFree)
    (idle_authorizeCaller (fun _ => trivial) ..) (fun _ => ?_) fun _ w hw => hw.1
  refine .bind ensures_issueUploadLocation fun result => ?_
  refine .bind (Q := fun _ => AllSound d) ?_ fun _ => keeps_pure
  unfold acquireUploadLease
  split
  · exact Action.ensures_pure fun w hw => hw.1
  · refine ensures_quiet_bind stable_soundWith trivial fun r => ?_
    cases r with
    | ok a => exact Action.ensures_pure fun w hw => hw.1
    | error e => exact .bind (ensures_removeIssued hlocal) fun _ => keeps_throw

/-- The object and the location record of a file source that is not ready may go. -/
theorem ensures_deleteLocated {caller : CallerContext} :
    Action.Ensures (served d) (SoundWith d (fun _ _ => False) fun metadata _ =>
        Unready metadata caller.partition fs)
      (deleteLocated caller fs) (fun _ => AllSound d) fun _ => AllSound d := by
  unfold deleteLocated
  refine .bind (ensures_findByFileSource stable_soundWith) fun r => ?_
  cases r with
  | error e => exact Action.ensures_pure fun w hw => hw.2.1
  | ok location =>
    refine .mono (P := Issued d caller.partition location.fileId) ?_ (fun w hw => ⟨hw.2.1, ?_⟩)
      (fun _ _ hw => hw) fun _ _ hw => hw
    · refine .bind ((keeps_attemptRef stable_soundWith location).mono (fun _ hw => hw)
        (fun _ _ hw => hw) fun _ w hw => hw.1) fun r => ?_
      cases r with
      | error e => exact ensures_deleted
      | ok ref =>
        refine ensures_quiet_bind stable_soundWith trivial fun r => ?_
        cases r with
        | error e => exact ensures_deleted
        | ok store =>
          exact .bind ((keeps_remove hlocal).mono (fun _ hw => hw) (fun _ _ hw => hw)
            fun _ w hw => hw.1) fun _ => ensures_deleted
    · obtain ⟨hid, hsource⟩ := InMemoryLocationRepository.byFileSource_eq_some.mp (hw.1 _ rfl)
      intro old hold
      have hsame := hid.symm.trans hold
      cases hsame
      rw [hsource]
      exact hw.2.2

/-- `DeleteFileMetadata::Execute` keeps the invariant: the record goes first. -/
theorem keeps_deleteFileMetadata {u : UseCasePorts} {caller : CallerContext} {recordId : String} :
    Keeps d (AllSound d) (deleteFileMetadata u caller recordId) := by
  refine ensures_audited ?_ (fun _ => stable_sound) (fun _ => stable_sound) fun _ _ _ hw => hw
  refine ensures_idle_bind stable_sound (idle_authorizeCallerAny (fun _ => trivial) ..)
    (fun _ => ?_) fun _ w hw => hw
  have hget : Action.Ensures (served d) (AllSound d)
      (Action.ask (.metadata (.getById caller.partition recordId)))
      (fun r w => (∀ record, r = .ok record → ∃ v, v.record = record ∧ record.id = recordId ∧
        w.metadata.row caller.partition record.fileSource = some v) ∧ AllSound d w)
      fun _ => AllSound d := by
    refine ensures_quiet stable_sound (fun r w w' hsame h record hr => by
      rw [hsame.metadata]
      exact h record hr) trivial fun w r w' _ hexec record hr => ?_
    obtain ⟨uuid, -, hreply, -⟩ := World.exec_none hexec
    simp only [World.apply, hlocal, World.localCall] at hreply
    obtain ⟨v, hrow, -, rfl, hid⟩ :=
      InMemoryMetadataRepository.getById_eq_ok.mp (hreply.symm.trans hr)
    exact ⟨v, rfl, hid, hrow⟩
  refine ensures_try hget (fun record => ?_) fun _ _ hw => hw
  -- once its row is free, the file source has no object to attest
  refine .bind (Q := fun r w => AllSound d w ∧
    (r = .ok () → Unready w.metadata caller.partition record.fileSource)) ?_ fun r => ?_
  · refine ensures_ask (Stable.and ?_ stable_sound) fun w r w' hw hexec =>
      ⟨hw.2.harmless hlocal hexec trivial, fun hr => ?_⟩
    · rintro w w' hsame ⟨v, hv⟩
      exact ⟨v, by rwa [hsame.metadata]⟩
    · obtain ⟨v, rfl, hid, hrow⟩ := hw.1
      rcases hexec.deleteRecord hlocal with ⟨-, e, he⟩ | ⟨v', hid', hrow', hrows⟩
      · rw [hr] at he
        cases he
      · obtain ⟨hsource, rfl⟩ :=
          InMemoryMetadataRepository.row_id_unique hrow' hrow (hid'.trans hid.symm)
        intro v'' hv'' _
        rw [hrows, if_pos ⟨rfl, rfl⟩] at hv''
        cases hv''
  · refine .bind (Q := fun _ => SoundWith d (fun _ _ => False) fun metadata _ =>
      Unready metadata caller.partition record.fileSource)
      (ensures_tryResult (fun _ w hr hw => ⟨hw.1, hw.2 hr⟩) fun _ _ _ hw => hw.1) fun _ => ?_
    split
    · exact .bind (ensures_deleteLocated hlocal) fun _ => keeps_pure
    · exact Action.ensures_pure fun w hw => hw.1

end Removal

end FileService.Checksums
