import FileService.Checksums.UseCases
import FileService.Domain.Schedule

/-!
# Registered checksums stay true

Over a sequence of executions of use cases, the checksum of a ready record is the
hash of the bytes that `DownloadFile` delivers for its file source, as long as
nothing writes over a registered object: no upload to a registered file source,
no server-side copy of other bytes to the key of a registered object, and no
requested file id of another partition that keeps its files in the same container.
-/
namespace FileService.Checksums
open FileService.Common FileService.Domain FileService.Interaction FileService.App
open FileService.Infra FileService.Protocols

variable {d : Deployment} {w w' : World} {u : UseCasePorts} {caller : CallerContext}

section Copies

/-- `CopyFiles` on one source keeps the invariant. -/
theorem keeps_copyFile (fileSource : String) : Keeps d (AllSound d) (copyFile caller fileSource) := by
  unfold copyFile
  dsimp only
  split
  · exact keeps_throw
  · refine Action.Ensures.bind (ensures_findByFileSource stable_sound) fun r => ?_
    cases r with
    | error e => exact Action.ensures_pure fun w hw => hw.2
    | ok location =>
      let P : World → Prop := SoundWith d (fun _ _ => False) fun _ locations =>
        locations.byFileSource caller.partition fileSource = some location
      refine .mono (P := P) ?_ (fun w hw => ⟨hw.2, hw.1 _ rfl⟩) (fun _ _ hw => hw) fun _ _ hw => hw
      have href : Action.Ensures (served d) P (Action.attempt (objectRefFromLocation location))
          (fun r w => (∀ ref, r = .ok ref → physicalRef location = .ref ref) ∧ P w)
          fun _ => AllSound d := by
        refine ensures_attempt ((ensures_objectRef (E := fun _ => P) fun _ _ hw => hw).mono
          (fun _ hw => hw) (fun ref w hw => ⟨fun ref' hr => Except.ok.inj hr ▸ hw.1, hw.2⟩)
          fun exit w hw => ?_)
        cases exit with
        | error e => exact ⟨by simp, hw⟩
        | exception what => exact hw.1
        | diverged => exact hw.1
      refine href.bind fun fromRef => .of_fact (fun w hw => hw.1) fun hfrom => .mono (P := P) ?_
        (fun w hw => hw.2) (fun _ _ hw => hw) fun _ _ hw => hw
      refine .bind (ensures_containerFor stable_soundWith) fun container =>
        .of_fact (fun w hw => hw.1) fun hcontainer => .mono (P := P) ?_ (fun w hw => hw.2)
          (fun _ _ hw => hw) fun _ _ hw => hw
      split
      · rename_i ref container
        refine .bind (Q := fun _ => AllSound d) (ensures_attempt ?_) fun _ => keeps_pure
        refine ensures_copyBetweenZones.mono (fun w hw => ⟨hw, ?_⟩) (fun _ _ hw => hw.1.1)
          fun exit w hw => by cases exit <;> exact hw.1
        exact hw.1.copyAdmitted hw.2 (hfrom ref rfl) rfl (hcontainer container rfl)
      · exact Action.ensures_pure fun w hw => hw.1

theorem keeps_copyFiles (sources : List String) :
    Keeps d (AllSound d) (copyFiles u caller sources) := by
  refine ensures_audited ?_ (fun _ => stable_sound) (fun _ => stable_sound) fun _ _ _ hw => hw
  refine ensures_idle_bind stable_sound (idle_authorizeCallerAny (fun _ => trivial) ..)
    (fun _ => ?_) fun _ w hw => hw
  refine .bind (Q := fun _ => AllSound d) ?_ fun _ => keeps_pure
  induction sources with
  | nil => exact keeps_pure
  | cons source sources ih => exact .bind (keeps_copyFile source) fun _ => .bind ih fun _ => keeps_pure

/-- A server-side copy writes over no object of a ready record, but with bytes that the
record attests. -/
def CopySpares (d : Deployment) (w : World) (p sourceFileSource targetFileSource : String)
    (targetZone : StorageZone) : Prop :=
  ∀ location source parts container,
    w.locations.byFileSource p sourceFileSource = some location →
    physicalRef location = .ref source → parseFileSource targetFileSource = .ok parts →
    containerOf p targetZone (World.partitionConfig d.registry p) = .ok container →
    CopyAdmitted d w (d.store p location.zone) (d.store p targetZone) source
      { container, key := makePosixKey parts }

theorem stable_copySpares {p sourceFileSource targetFileSource : String} {targetZone : StorageZone} :
    Stable fun w => CopySpares d w p sourceFileSource targetFileSource targetZone := by
  intro w w' hsame h location source parts container hl href hparts hcontainer
  rw [hsame.locations] at hl
  exact stable_copyAdmitted w w' hsame (h location source parts container hl href hparts hcontainer)

theorem ensures_serverSideCopy {sourceFileSource targetFileSource : String}
    {targetZone : StorageZone} :
    Action.Ensures (served d) (fun w => AllSound d w ∧
        CopySpares d w caller.partition sourceFileSource targetFileSource targetZone)
      (serverSideCopy u caller sourceFileSource targetFileSource targetZone)
      (fun _ => AllSound d) fun _ => AllSound d := by
  refine ensures_audited ?_ (fun _ => stable_sound) (fun _ => stable_sound) fun _ _ _ hw => hw
  let P : World → Prop := fun w => AllSound d w ∧
    CopySpares d w caller.partition sourceFileSource targetFileSource targetZone
  have hP : Stable P := stable_sound.and stable_copySpares
  refine ensures_idle_bind hP (idle_authorizeCallerAny (fun _ => trivial) ..)
    (fun _ => ?_) fun _ w hw => hw.1
  dsimp only
  split
  · exact Action.ensures_throw fun w hw => hw.1
  · split
    · exact Action.ensures_throw fun w hw => hw.1
    · refine ensures_try (ensures_findByFileSource hP) (fun location => ?_) fun _ _ hw => hw.1
      refine .bind (ensures_objectRef fun _ w hw => hw.2.1) fun source => ?_
      refine .of_fact (fun w hw => hw.1) fun href => ?_
      refine .bind (Q := fun parts w => parseFileSource targetFileSource = .ok parts ∧
        w.locations.byFileSource caller.partition sourceFileSource = some location ∧ P w)
        (ensures_tryResult (fun parts w hr hw => ⟨hr, hw.2⟩) fun _ _ _ hw => hw.2.2.1)
        fun parts => .of_fact (fun w hw => hw.1) fun hparts => ?_
      let P' : World → Prop := fun w =>
        w.locations.byFileSource caller.partition sourceFileSource = some location ∧ P w
      have hP' : Stable P' := by
        intro w w' hsame hw
        exact ⟨by rw [hsame.locations]; exact hw.1, hP w w' hsame hw.2⟩
      refine .mono (P := P') (ensures_try (ensures_containerFor hP') (fun container =>
        .of_fact (fun w hw => hw.1) fun hcontainer => ?_) fun _ _ hw => hw.2.1) (fun w hw => hw.2)
        (fun _ _ hw => hw) fun _ _ hw => hw
      refine .bind (Q := fun _ => AllSound d) ?_ fun st => keeps_pure
      refine (ensures_copyBetweenZones (G := fun _ _ => True)).mono (fun w hw => ?_)
        (fun _ _ hw => hw.1.1) fun _ _ hw => hw.1
      obtain ⟨-, hl, hsound, hspares⟩ := hw
      exact ⟨⟨hsound, trivial⟩, hspares location source parts container hl href hparts hcontainer⟩

end Copies

section Runs

/-- One execution of a use case that can write objects or records. -/
inductive Execution where
  | getUploadLocation (options : IssuerOptions) (requestedFileId expiryTime : Option String)
  | uploadFile (polls : Nat) (request : UploadStreamRequest) (body : Bytes)
  | createFileMetadata (polls : Nat) (record : FileMetadataRecord)
  | copyFiles (sources : List String)
  | serverSideCopy (sourceFileSource targetFileSource : String) (targetZone : StorageZone)
  | deleteFileMetadata (recordId : String)

def Execution.action (u : UseCasePorts) (caller : CallerContext) : Execution → Action Unit
  | .getUploadLocation options requested expiryTime => do
    let _ ← App.getUploadLocation options u caller requested expiryTime
  | .uploadFile polls request body => do
    let _ ← App.uploadFile polls u caller request body
  | .createFileMetadata polls record => do
    let _ ← App.createFileMetadata polls u caller record
  | .copyFiles sources => do
    let _ ← App.copyFiles u caller sources
  | .serverSideCopy source target targetZone => do
    let _ ← App.serverSideCopy u caller source target targetZone
  | .deleteFileMetadata recordId => App.deleteFileMetadata u caller recordId

/-- The execution writes over no registered object: its upload goes to a file source that is
not ready, its copy puts only bytes that are attested, its file id is not in use by a partition
with a container in common. -/
def Execution.Spares (d : Deployment) (w : World) (caller : CallerContext) : Execution → Prop
  | .getUploadLocation _ requested _ => RequestFree d w caller.partition requested
  | .uploadFile _ request _ => Unready w.metadata caller.partition request.fileSource
  | .serverSideCopy source target targetZone =>
    CopySpares d w caller.partition source target targetZone
  | .createFileMetadata .. | .copyFiles _ | .deleteFileMetadata _ => True

/-- The states between the executions of a sequence without port failures, from an empty
service on, if each execution is one that `ok` allows in its state. -/
inductive Reached (d : Deployment) (ok : World → CallerContext → Execution → Prop) : World → Prop
  | start (now : Int) : Reached d ok { nowMillis := now }
  | step {w w' : World} {u : UseCasePorts} {caller : CallerContext} {e : Execution}
      {t : List (Performed ports World)} {out : Except Exit Unit} :
      Reached d ok w → ok w caller e → u.sha256Hex = d.sha256Hex →
      (e.action u caller).run.Performs (served d) w t out w' → Reached d ok w'

/-- The checksum of every ready record is the hash of what a download of its file source
delivers. -/
def ChecksumsTrue (d : Deployment) (w : World) : Prop :=
  ∀ p fs v, w.metadata.row p fs = some v → v.state = .ready →
    ∀ (u : UseCasePorts) (caller : CallerContext) t result data w', caller.partition = p →
      (downloadFile u caller "" fs 0 0).run.Performs (served d) w t (.ok (result, data)) w' →
      Attests d v.record data

theorem sound_start (now : Int) : AllSound d { nowMillis := now } where
  hashed ho := by
    simp [World.object, InMemoryBlobStore.objectAt] at ho
  placed hl := by
    simp [InMemoryLocationRepository.byFileId] at hl
  distinct hl := by
    simp [InMemoryLocationRepository.byFileId] at hl
  truthful p fs _ v hv := by
    simp [InMemoryMetadataRepository.row, Indexed.findBySource] at hv

/-- What an execution that spares the registered objects keeps. -/
theorem ensures_action (hlocal : d.backend = .local) (hhash : ∀ data, d.sha256Hex data ≠ "")
    (hu : u.sha256Hex = d.sha256Hex) (e : Execution) :
    Action.Ensures (served d) (fun w => AllSound d w ∧ e.Spares d w caller) (e.action u caller)
      (fun _ => AllSound d) fun _ => AllSound d := by
  have hkeeps : ∀ {α : Type} {x : Action α}, Keeps d (AllSound d) x →
      Action.Ensures (served d) (fun w => AllSound d w ∧ True) (do let _ ← x)
        (fun _ => AllSound d) fun _ => AllSound d := fun hx =>
    .bind (hx.mono (fun w hw => hw.1) (fun _ _ hw => hw) fun _ _ hw => hw) fun _ => keeps_pure
  cases e with
  | getUploadLocation options requested expiryTime =>
    exact .bind (ensures_getUploadLocation hlocal) fun _ => keeps_pure
  | uploadFile polls request body =>
    exact .bind (ensures_uploadFile hlocal hhash hu polls body) fun _ => keeps_pure
  | createFileMetadata polls record =>
    exact hkeeps (keeps_createFileMetadata hlocal hhash hu polls record)
  | copyFiles sources => exact hkeeps (keeps_copyFiles sources)
  | serverSideCopy source target targetZone =>
    exact .bind ensures_serverSideCopy fun _ => keeps_pure
  | deleteFileMetadata recordId =>
    exact (keeps_deleteFileMetadata hlocal).mono (fun w hw => hw.1) (fun _ _ hw => hw)
      fun _ _ hw => hw

/-- The invariant holds between the executions. -/
theorem Reached.sound (hlocal : d.backend = .local) (hhash : ∀ data, d.sha256Hex data ≠ "")
    (h : Reached d (fun w caller e => e.Spares d w caller) w) : AllSound d w := by
  induction h with
  | start now => exact sound_start now
  | step _ hspares hu hrun ih =>
    rename_i w w' u caller e t out _
    have hend := ensures_action hlocal hhash hu e w t out w' ⟨ih, hspares⟩ hrun
    cases out <;> exact hend

/-- No version of a file source is stored. -/
def NoRow (p fs : String) (w : World) : Prop := w.metadata.row p fs = none

/-- With a remote service no call writes a row. -/
theorem served_no_row {w w' : World} {op : Port} {r : op.Reply} {p fs : String}
    (hremote : d.backend = .remote) (hexec : served d w op r w')
    (hnone : NoRow p fs w) : NoRow p fs w' := by
  obtain ⟨w₁, hticks, hexec⟩ := hexec
  unfold NoRow at hnone ⊢
  rw [← (sameData_of_ticks hticks).metadata] at hnone
  suffices hsame : w'.metadata = w₁.metadata by rwa [hsame]
  cases op with
  | metadata call => exact hexec.remote_frame hremote
  | locations call => exact hexec.locations_frame.1
  | blobs store call => exact hexec.blobs_frame.1
  | _ => exact (hexec.quiet trivial).metadata

/-- A remote service keeps no state of a record, so no row is ever ready. -/
theorem Reached.no_rows {ok : World → CallerContext → Execution → Prop}
    (hremote : d.backend = .remote) (h : Reached d ok w) (p fs : String) :
    w.metadata.row p fs = none := by
  induction h with
  | start now => simp [InMemoryMetadataRepository.row, Indexed.findBySource]
  | step _ _ _ hrun ih =>
    have hkeep : ∀ w w' op r, served d w op r w' → NoRow p fs w → NoRow p fs w' :=
      fun _ _ _ _ hexec hnone => served_no_row hremote hexec hnone
    exact hrun.invariant (fun x _ hexec => hkeep _ _ _ _ hexec) (show NoRow p fs _ from ih)

/-- The bytes that a download of a registered file source delivers. -/
theorem ensures_downloadFile {p fs : String} {v : Version} (hp : caller.partition = p) :
    Action.Ensures (served d) (fun w => AllSound d w ∧ v.state = .ready ∧
        w.metadata.row p fs = some v)
      (downloadFile u caller "" fs 0 0) (fun out _ => Attests d v.record out.2)
      fun _ _ => True := by
  subst hp
  refine ensures_audited ?_ (fun _ _ _ _ h => h) (fun _ => stable_true) fun _ _ _ _ => trivial
  let P : World → Prop := fun w => AllSound d w ∧ v.state = .ready ∧
    w.metadata.row caller.partition fs = some v
  have hP : Stable P := stable_sound.and fun w w' hsame hw => by rwa [hsame.metadata]
  refine ensures_idle_bind hP (idle_authorizeCaller (fun _ => trivial) ..) (fun _ => ?_)
    fun _ _ _ => trivial
  dsimp only
  split
  · exact Action.ensures_throw fun _ _ => trivial
  · refine ensures_try (ensures_findByFileSource hP) (fun location => ?_) fun _ _ _ => trivial
    refine .bind (ensures_objectRef fun _ _ _ => trivial) fun ref => ?_
    let P' : World → Prop := fun w =>
      w.locations.byFileSource caller.partition fs = some location ∧ P w
    have hP' : Stable P' := by
      intro w w' hsame hw
      exact ⟨by rw [hsame.locations]; exact hw.1, hP w w' hsame hw.2⟩
    refine .of_fact (fun w hw => hw.1) fun href => .mono (P := P') ?_ (fun w hw => hw.2)
      (fun _ _ hw => hw) fun _ _ hw => hw
    refine ensures_try (ensures_forPartition hP') (fun store => .of_fact (fun w hw => hw.1)
      fun hstore => .mono (P := P') ?_ (fun w hw => hw.2) (fun _ _ hw => hw) fun _ _ hw => hw)
      fun _ _ _ => trivial
    subst hstore
    refine ensures_try (ensures_stat hP') (fun st => .mono (P := P') ?_ (fun w hw => hw.2)
      (fun _ _ hw => hw) fun _ _ hw => hw) fun _ _ _ => trivial
    split
    · exact Action.ensures_throw fun _ _ => trivial
    · refine ensures_try (ensures_get hP') (fun data => Action.ensures_pure ?_) fun _ _ _ => trivial
      rintro w ⟨⟨o, ho, hdata⟩, hl, hsound, hstate, hrow⟩
      obtain ⟨ref', ⟨location', hl', hzone, href', -⟩, hattests⟩ :=
        hsound.truthful _ _ id v hrow hstate
      have hlocation := hl.symm.trans hl'
      cases hlocation
      obtain rfl : ref = ref' := by simpa using href.symm.trans href'
      rw [hzone] at ho
      have hwhole : data = o.data := by simpa using hdata
      rw [hwhole]
      exact hattests o ho

end Runs

section Sample

/-- SHA-256 of the contents that the sample runs write: nothing, `a` and `b`. -/
def sampleHash (data : Bytes) : String :=
  if data = [] then "e3b0c44298fc1c149afbf4c8996fb92427ae41e4649b934ca495991b7852b855"
  else if data = [97] then "ca978112ca1bbdcafac231b39a23dc4da786eff8147c4f7fb9807785afee48bb"
  else "3e23e8160039594a33894f6564e1b1348bbd7a0088d42c4acb73eeaed59c009d"

def hashingDeployment : Deployment := { sampleDeployment with sha256Hex := sampleHash }

def hashingPorts : UseCasePorts where
  sha256Hex := sampleHash

/-- An action on the sample deployment, if every call can be done; `uuid` may be drawn once. -/
def carried {α : Type} (uuid : String) (x : Action α) (w : World) : Option (Except Exit α × World) :=
  x.run.carryOut (World.choose hashingDeployment .none (.done uuid)) w

theorem performs_of_carried {α : Type} {uuid : String} {x : Action α} {out : Except Exit α}
    (h : carried uuid x w = some (out, w')) :
    ∃ t, x.run.Performs (served hashingDeployment) w t out w' :=
  Program.performs_of_carryOut (fun w _ _ _ hstep =>
    ⟨w, .refl, World.exec_of_choose hashingDeployment .none hstep⟩) h

/-- One execution of a sample run: an identifier to draw, the caller, the use case. -/
abbrev SampleStep := String × CallerContext × Execution

/-- Carry the executions out, if `guard` allows each of them, and test the last state. -/
def plays (guard : World → CallerContext → Execution → Bool) (test : World → Bool) :
    List SampleStep → World → Bool
  | [], w => test w
  | (uuid, caller, e) :: steps, w => guard w caller e &&
    match carried uuid (e.action hashingPorts caller) w with
    | some (_, w') => plays guard test steps w'
    | none => false

theorem Reached.plays {ok : World → CallerContext → Execution → Prop}
    (h : Reached hashingDeployment ok w) (guard : World → CallerContext → Execution → Bool)
    (test : World → Bool) (steps : List SampleStep)
    (hok : ∀ w caller e, guard w caller e = true → ok w caller e)
    (hplays : plays guard test steps w = true) :
    ∃ w', Reached hashingDeployment ok w' ∧ test w' = true := by
  induction steps generalizing w with
  | nil => exact ⟨w, h, hplays⟩
  | cons step steps ih =>
    obtain ⟨uuid, caller, e⟩ := step
    simp only [Checksums.plays, Bool.and_eq_true] at hplays
    obtain ⟨hguard, hrest⟩ := hplays
    split at hrest
    · rename_i out w' hcarried
      obtain ⟨t, hrun⟩ := performs_of_carried hcarried
      exact ih (.step h (hok _ _ _ hguard) rfl hrun) hrest
    · cases hrest

/-- A test that the execution spares the registered objects. -/
def spares (w : World) (caller : CallerContext) : Execution → Bool
  | .getUploadLocation _ (some id) _ => decide (w.Fresh id)
  | .getUploadLocation _ none _ => true
  | .uploadFile _ request _ => (w.metadata.row caller.partition request.fileSource).isNone
  | .serverSideCopy .. => false
  | .createFileMetadata .. | .copyFiles _ | .deleteFileMetadata _ => true

theorem spares_of_test (e : Execution) (h : spares w caller e = true) :
    e.Spares hashingDeployment w caller := by
  cases e with
  | getUploadLocation options requested expiryTime =>
    cases requested with
    | none =>
      rintro id ⟨⟩
    | some id =>
      rintro _ ⟨⟩ q l hl
      have hfresh : w.Fresh id := of_decide_eq_true h
      rw [hfresh.2.2 q] at hl
      cases hl
  | uploadFile polls request body =>
    intro v hv
    rw [spares, hv] at h
    cases h
  | serverSideCopy source target targetZone => cases h
  | createFileMetadata polls record => trivial
  | copyFiles sources => trivial
  | deleteFileMetadata recordId => trivial

theorem sampleHash_ne (data : Bytes) : sampleHash data ≠ "" := by
  unfold sampleHash
  split_ifs <;> decide

/-- The file source that a file id is issued at the start. -/
def issuedSource (fileId : String) : String := "/u/1614784413120-2021-03-03-15-13-33-120/" ++ fileId

def recordOf (fileSource : String) : FileMetadataRecord :=
  { sampleRecord with data := { datasetProperties := { fileSourceInfo := { fileSource } } } }

def uploaded (uuid : String) (caller : CallerContext) (fileId : String) (body : Bytes) :
    List SampleStep :=
  [(uuid, caller, .getUploadLocation {} (some fileId) none),
    (uuid, caller, .uploadFile 1 { fileSource := issuedSource fileId } body)]

def registered (uuid : String) (caller : CallerContext) (fileId : String) (body : Bytes) :
    List SampleStep :=
  uploaded uuid caller fileId body ++
    [(uuid, caller, .createFileMetadata 1 (recordOf (issuedSource fileId)))]

theorem reached_start (ok : World → CallerContext → Execution → Prop) :
    Reached hashingDeployment ok { nowMillis := 1614784413120 } := .start _

/-- A download that delivers `b` where the record holds the hash of `a`. -/
def overwritten (w : World) : Bool :=
  ((w.metadata.row "p" (issuedSource "f")).any fun v =>
    v.state = .ready ∧ v.record.data.checksum = some (sampleHash [97])) &&
  (carried "k" (downloadFile hashingPorts sampleCaller "" (issuedSource "f") 0 0) w).any
    fun out => match out.1 with
      | .ok (_, data) => data = [98]
      | .error _ => false

theorem not_checksumsTrue (h : overwritten w = true) : ¬ChecksumsTrue hashingDeployment w := by
  intro htrue
  simp only [overwritten, Bool.and_eq_true] at h
  obtain ⟨v, hv, htest⟩ := (Option.any_eq_true _ _).mp h.1
  obtain ⟨⟨out, w'⟩, hcarried, hdata⟩ := (Option.any_eq_true _ _).mp h.2
  obtain ⟨hready, hchecksum⟩ : v.state = .ready ∧
      v.record.data.checksum = some (sampleHash [97]) := by simpa using htest
  obtain ⟨t, hrun⟩ := performs_of_carried hcarried
  cases out with
  | error exit => cases hdata
  | ok out =>
    obtain ⟨result, data⟩ := out
    obtain rfl : data = [98] := by simpa using hdata
    have hattests := (htrue "p" (issuedSource "f") v hv hready _ _ _ _ _ _ rfl hrun).1
    rw [hchecksum] at hattests
    exact absurd (Option.some.inj hattests) (by decide)

/-- Every execution spares the registered objects, but server-side copies need not. -/
def CopiesFreely (w : World) (caller : CallerContext) (e : Execution) : Prop :=
  (∀ source target zone, e ≠ .serverSideCopy source target zone) →
    e.Spares hashingDeployment w caller

/-- Every execution spares the registered objects, but requests of file ids need not. -/
def IssuesFreely (w : World) (caller : CallerContext) (e : Execution) : Prop :=
  (∀ options requested expiryTime, e ≠ .getUploadLocation options requested expiryTime) →
    e.Spares hashingDeployment w caller

/-- The default containers of this partition are those of `p`. -/
def upperCaller : CallerContext := { sampleCaller with partition := "P" }

end Sample

end FileService.Checksums
