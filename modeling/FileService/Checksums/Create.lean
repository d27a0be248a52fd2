import FileService.Checksums.Objects
import FileService.Protocols.CreateFollows
import FileService.Safety.Rollback

/-!
# Registering keeps the invariant

The target of a registration belongs to no ready record, as its file source is
only claimed. The record is marked with the checksum of the object at the target,
and until the location record is migrated its file source is omitted from the
invariant.
-/
namespace FileService.Checksums
open FileService.Common FileService.Domain FileService.Interaction FileService.App
open FileService.Infra FileService.Protocols FileService.Safety

/-- The invariant for every file source. -/
abbrev AllSound (d : Deployment) : World → Prop := Sound d fun _ _ => False

variable {d : Deployment} {omitted : String → String → Prop} {w w' : World} {α : Type}

section Harmless
variable (hlocal : d.backend = .local)
include hlocal

theorem keeps_harmless {op : Port} (hop : Harmless op) :
    Keeps d (Sound d omitted) (Action.ask op) :=
  keeps_ask stable_sound fun _ _ _ h hexec => h.harmless hlocal hexec hop

theorem keeps_rollback (u : UseCasePorts) (caller : CallerContext) (target : ObjectRef)
    (fileSource recordId : String) :
    Keeps d (Sound d omitted) (rollbackCreatedObject u caller target fileSource recordId) := by
  unfold rollbackCreatedObject
  have htail : Keeps d (Sound d omitted) (do
      publishStatus caller "FAILED" 0 recordId
      recordFailure u "createMetadataFailure" caller recordId) :=
    .bind (keeps_idle (X := fun _ => True) stable_sound (idle_publishStatus ..)) fun _ =>
      keeps_idle (X := fun _ => True) stable_sound (idle_recordFailure ..)
  refine .bind (keeps_harmless hlocal trivial) fun r => ?_
  cases r with
  | ok existing => exact htail
  | error e =>
    refine .bind (keeps_harmless hlocal trivial) fun r => ?_
    cases r with
    | error e => exact htail
    | ok store => exact .bind (keeps_harmless hlocal trivial) fun _ => htail

/-- The claim of a registration is released. -/
theorem keeps_releaseClaim (job : CreateJob) :
    Keeps d (Sound d omitted) (match job.claim with
      | none => pure ()
      | some version => do
        match ← Action.ask (.metadata (.releaseClaim job.partition job.out.id version)) with
        | .ok _ => pure ()
        | .error _ =>
          recordFailure job.u "createMetadataClaimReleaseFailure" job.caller job.out.id) := by
  cases job.claim with
  | none => exact keeps_pure
  | some version =>
    refine .bind (keeps_harmless hlocal trivial) fun r => ?_
    cases r with
    | ok a => exact keeps_pure
    | error e => exact keeps_idle (X := fun _ => True) stable_sound (idle_recordFailure ..)

theorem keeps_abortCreate (job : CreateJob) (rollbackRef : Option ObjectRef) :
    Keeps d (Sound d omitted) (job.abortCreate rollbackRef) := by
  unfold CreateJob.abortCreate
  cases rollbackRef with
  | none => exact keeps_releaseClaim hlocal job
  | some ref => exact .bind (keeps_rollback hlocal _ _ _ _ _) fun _ => keeps_releaseClaim hlocal job

/-- An abort leaves with an error. -/
theorem ensures_abortWith (job : CreateJob) (rollbackRef : Option ObjectRef) (e : Error)
    {Q : α → World → Prop} :
    Action.Ensures (served d) (Sound d omitted) (job.abortWith rollbackRef e) Q
      fun _ => Sound d omitted :=
  .bind (keeps_abortCreate hlocal job rollbackRef) fun _ => Action.ensures_throw fun _ hw => hw

end Harmless

section Registration
variable {job : CreateJob} {location : FileLocation} {source target : ObjectRef}

/-- What a registration relies on: its file source is not ready, and this is its location. -/
def Claimed (job : CreateJob) (location : FileLocation)
    (metadata : InMemoryMetadataRepository) (locations : InMemoryLocationRepository) : Prop :=
  Unready metadata job.partition job.fileSource ∧
    locations.byFileSource job.partition job.fileSource = some location

/-- The state in which steps 6 to 8 run. -/
abbrev Under (d : Deployment) (job : CreateJob) (location : FileLocation) : World → Prop :=
  SoundWith d (fun _ _ => False) (Claimed job location)

/-- The object at the target of the registration, as `st` describes it. -/
abbrev Obtained (d : Deployment) (job : CreateJob) (location : FileLocation) (target : ObjectRef) :
    ObjectStat → World → Prop :=
  Wrote d (fun _ _ => False) (Claimed job location) (d.store job.partition .persistent) target

/-- The target of a registration: the key of the source in the persistent container. -/
def Aimed (d : Deployment) (job : CreateJob) (location : FileLocation)
    (source target : ObjectRef) : Prop :=
  physicalRef location = .ref source ∧ target.key = source.key ∧
    containerOf job.partition .persistent (World.partitionConfig d.registry job.partition) =
      .ok target.container

theorem Aimed.admitted (h : Aimed d job location source target)
    (hw : Under d job location w) (fromStore : StoreId) :
    CopyAdmitted d w fromStore (d.store job.partition .persistent) source target := fun data _ =>
  hw.1.admits hw.2.2 h.1 h.2.1 (houses_persistent h.2.2) hw.2.1 data

/-- What an attempted copy leaves: the object at the target, or nothing new. -/
def CopyTried (d : Deployment) (job : CreateJob) (location : FileLocation) (target : ObjectRef) :
    Result ObjectStat → World → Prop
  | .ok st => Obtained d job location target st
  | .error _ => Under d job location

variable (hlocal : d.backend = .local)
include hlocal

theorem ensures_copyToPersistent (h : Aimed d job location source target) :
    Action.Ensures (served d) (Under d job location) (job.copyToPersistent location source target)
      (fun out w => match out with
        | .inl _ => AllSound d w
        | .inr st => Obtained d job location target st w)
      fun _ => AllSound d := by
  unfold CreateJob.copyToPersistent
  refine .bind (Q := CopyTried d job location target) (ensures_attempt ?_) fun r => ?_
  · exact ensures_copyBetweenZones.mono (fun w hw => ⟨hw, h.admitted hw _⟩) (fun _ _ hw => hw)
      fun exit w hw => by cases exit <;> first | exact hw | exact hw.1
  · cases r with
    | ok st => exact Action.ensures_pure fun w hw => hw
    | error e =>
      refine .mono (P := AllSound d) (.bind (keeps_harmless hlocal trivial) fun r => ?_)
        (fun w hw => hw.1) (fun _ _ hw => hw) fun _ _ hw => hw
      cases r with
      | error e => exact ensures_abortWith hlocal job _ _
      | ok existing =>
        have hreturn : Keeps d (AllSound d) (returnExistingRecord job.u job.caller existing) :=
          keeps_idle (X := fun _ => True) stable_sound
            (idle_returnExistingRecord (fun _ => trivial) ..)
        have htail : Action.Ensures (served d) (AllSound d)
            (do return Sum.inl (← returnExistingRecord job.u job.caller existing))
            (fun out w => match out with
              | .inl _ => AllSound d w
              | .inr st => Obtained d job location target st w)
            fun _ => AllSound d :=
          .bind hreturn fun _ => Action.ensures_pure fun w hw => hw
        dsimp only
        cases job.claim with
        | none => exact htail
        | some version => exact .bind (keeps_harmless hlocal trivial) fun _ => htail

theorem ensures_reusePersistent :
    Action.Ensures (served d) (Under d job location) (job.reusePersistent target)
      (Obtained d job location target) fun _ => AllSound d := by
  have habort : ∀ e, Action.Ensures (served d) (Under d job location)
      (job.abortWith (α := ObjectStat) (some target) e) (Obtained d job location target)
      fun _ => AllSound d := fun e =>
    (ensures_abortWith hlocal job _ e).mono (fun w hw => hw.1) (fun _ _ hw => hw) fun _ _ hw => hw
  unfold CreateJob.reusePersistent
  refine (ensures_forPartition stable_soundWith).bind fun r => ?_
  cases r with
  | error e => exact (habort _).mono (fun w hw => hw.2) (fun _ _ hw => hw) fun _ _ hw => hw
  | ok store =>
    refine .of_fact (fun w hw => hw.1 store rfl) fun hstore => ?_
    subst hstore
    refine .mono (P := Under d job location) ?_ (fun w hw => hw.2) (fun _ _ hw => hw)
      fun _ _ hw => hw
    refine (ensures_stat stable_soundWith).bind fun r => ?_
    cases r with
    | error e => exact (habort _).mono (fun w hw => hw.2) (fun _ _ hw => hw) fun _ _ hw => hw
    | ok st =>
      dsimp only
      split
      · rename_i hexists
        refine Action.ensures_pure fun w hw => ⟨hw.2, ?_⟩
        have hst := hw.1 st rfl
        cases ho : w.object (d.store job.partition .persistent) target with
        | none =>
          rw [ho] at hst
          subst hst
          cases hexists
        | some o =>
          rw [ho] at hst
          exact ⟨o, rfl, hst⟩
      · exact (habort _).mono (fun w hw => hw.2) (fun _ _ hw => hw) fun _ _ hw => hw

theorem ensures_obtainPersistent (h : Aimed d job location source target) :
    Action.Ensures (served d) (Under d job location) (job.obtainPersistent location source target)
      (fun out w => match out with
        | .inl _ => AllSound d w
        | .inr st => Obtained d job location target st w)
      fun _ => AllSound d := by
  unfold CreateJob.obtainPersistent
  split
  · exact ensures_copyToPersistent hlocal h
  · exact .bind (ensures_reusePersistent hlocal) fun _ => Action.ensures_pure fun w hw => hw

theorem ensures_abortIfLeaseLost {renewer : Option Nat} {R : World → Prop}
    (hR : Stable R) (hsound : ∀ w, R w → AllSound d w) :
    Action.Ensures (served d) R (job.abortIfLeaseLost renewer target) (fun _ => R)
      fun _ => AllSound d := by
  unfold CreateJob.abortIfLeaseLost
  cases renewer with
  | none => exact Action.ensures_pure fun w hw => hw
  | some handle =>
    refine .bind (Q := fun _ => R) (ensures_ask hR fun w r w' hw hexec =>
      hR w w' (hexec.quiet trivial) hw) fun lost => ?_
    cases lost with
    | false => exact Action.ensures_pure fun w hw => hw
    | true =>
      exact (ensures_abortWith hlocal job _ _).mono hsound (fun _ _ hw => hw) fun _ _ hw => hw

end Registration

section Checksum
variable {job : CreateJob} {location : FileLocation} {source target : ObjectRef}

theorem attests_withChecksum (out : FileMetadataRecord) {data : Bytes}
    (hhash : d.sha256Hex data ≠ "") :
    Attests d (CreateJob.withChecksum out (d.sha256Hex data) "SHA256") data := by
  unfold CreateJob.withChecksum
  rw [if_neg hhash, if_neg (by decide)]
  exact ⟨rfl, rfl, rfl, rfl⟩

theorem withChecksum_fileSource (out : FileMetadataRecord) (checksum algorithm : String) :
    (CreateJob.withChecksum out checksum algorithm).fileSource = out.fileSource := by
  unfold CreateJob.withChecksum
  split <;> rfl

theorem parse_sha256 : parseChecksumAlgorithm "SHA256" = some .sha256 := by
  unfold parseChecksumAlgorithm
  decide

/-- The bytes of the object are hashed. -/
theorem ensures_computeChecksumStreaming {P : World → Prop} {u : UseCasePorts} {p : String}
    {ref : ObjectRef} {zone : StorageZone} (hP : Stable P) (hu : u.sha256Hex = d.sha256Hex) :
    Action.Ensures (served d) P (computeChecksumStreaming u p ref zone)
      (fun sum w => (∃ o, w.object (d.store p zone) ref = some o ∧ sum = d.sha256Hex o.data) ∧ P w)
      fun _ => P := by
  unfold computeChecksumStreaming
  refine ensures_try (ensures_forPartition hP) (fun store => .of_fact (fun w hw => hw.1)
    fun hstore => .mono (P := P) ?_ (fun w hw => hw.2) (fun _ _ hw => hw) fun _ _ hw => hw)
    fun _ _ hw => hw
  subst hstore
  refine ensures_try (ensures_get hP) (fun data => Action.ensures_pure ?_) fun _ _ hw => hw
  rintro w ⟨⟨o, ho, hdata⟩, hw⟩
  refine ⟨⟨o, ho, ?_⟩, hw⟩
  rw [hu, hdata, if_pos rfl]
  rfl

/-- The record to store attests the object at the target. -/
def Checked (d : Deployment) (job : CreateJob) (location : FileLocation) (target : ObjectRef)
    (out : FileMetadataRecord) (w : World) : Prop :=
  Under d job location w ∧ out.fileSource = job.fileSource ∧
    ∃ o, w.object (d.store job.partition .persistent) target = some o ∧ Attests d out o.data

theorem stable_checked {out : FileMetadataRecord} : Stable (Checked d job location target out) := by
  rintro w w' hsame ⟨hw, hsource, o, ho, hattests⟩
  exact ⟨stable_soundWith w w' hsame hw, hsource, o, (hsame.object _ _).trans ho, hattests⟩

variable (hlocal : d.backend = .local) (hhash : ∀ data, d.sha256Hex data ≠ "")
variable (hu : job.u.sha256Hex = d.sha256Hex)
include hlocal hhash hu

theorem ensures_checksumComputed {st : ObjectStat} :
    Action.Ensures (served d) (Obtained d job location target st)
      (do match ← Action.attempt (computeChecksumStreaming job.u job.partition target .persistent) with
          | .ok checksum =>
            return CreateJob.withChecksum job.out checksum (canonicalChecksumName .sha256)
          | .error e =>
            job.abortWith (some target) (err .badGateway ("计算校验和失败：" ++ e.message)))
      (Checked d job location target) fun _ => AllSound d := by
  have hstable : Stable (Obtained d job location target st) := stable_wrote
  refine .bind (Q := fun r w => (∀ sum, r = .ok sum → ∃ o,
    w.object (d.store job.partition .persistent) target = some o ∧ sum = d.sha256Hex o.data) ∧
    Obtained d job location target st w) (ensures_attempt ?_) fun r => ?_
  · refine (ensures_computeChecksumStreaming hstable hu).mono (fun _ hw => hw)
      (fun sum w hw => ⟨fun sum' hsum => Except.ok.inj hsum ▸ hw.1, hw.2⟩) fun exit w hw => ?_
    cases exit with
    | error e => exact ⟨by simp, hw⟩
    | exception what => exact hw.1.1
    | diverged => exact hw.1.1
  · cases r with
    | error e =>
      exact (ensures_abortWith hlocal job _ _).mono (fun w hw => hw.2.1.1) (fun _ _ hw => hw)
        fun _ _ hw => hw
    | ok sum =>
      refine Action.ensures_pure fun w hw => ?_
      obtain ⟨o, ho, rfl⟩ := hw.1 sum rfl
      exact ⟨hw.2.1, withChecksum_fileSource .., o, ho, attests_withChecksum _ (hhash _)⟩

theorem ensures_checksummed {st : ObjectStat} :
    Action.Ensures (served d) (Obtained d job location target st) (job.checksummed target st)
      (Checked d job location target) fun _ => AllSound d := by
  unfold CreateJob.checksummed
  dsimp only
  split
  · rename_i algorithm halgorithm
    split
    · refine Action.ensures_pure fun w hw => ?_
      obtain ⟨hunder, o, ho, rfl⟩ := hw
      obtain ⟨hsum, hname⟩ := hunder.1.hashed ho
      refine ⟨hunder, withChecksum_fileSource .., o, ho, ?_⟩
      simp only [InMemoryBlobStore.statOf] at halgorithm ⊢
      rw [hname, parse_sha256] at halgorithm
      cases halgorithm
      rw [hsum]
      exact attests_withChecksum _ (hhash _)
    · exact ensures_checksumComputed hlocal hhash hu
  · exact ensures_checksumComputed hlocal hhash hu

end Checksum

section Marking
variable {job : CreateJob} {location : FileLocation} {source target : ObjectRef}

/-- The row is ready and attests the object at the target; the location is not migrated yet. -/
def Marked (d : Deployment) (job : CreateJob) (location : FileLocation) (target : ObjectRef)
    (w : World) : Prop :=
  Sound d (also (fun _ _ => False) job.partition job.fileSource) w ∧
    w.locations.byFileSource job.partition job.fileSource = some location ∧
    ∀ v o, w.metadata.row job.partition job.fileSource = some v →
      w.object (d.store job.partition .persistent) target = some o → Attests d v.record o.data

theorem stable_marked : Stable (Marked d job location target) := by
  rintro w w' hsame ⟨hsound, hlocation, hattests⟩
  refine ⟨stable_sound w w' hsame hsound, by rwa [hsame.locations], fun v o hv ho => ?_⟩
  rw [hsame.metadata] at hv
  exact hattests v o hv (by rwa [← hsame.object])

/-- Omitting a file source weakens the invariant. -/
theorem Sound.also {p fs : String} (h : Sound d omitted w) :
    Sound d (Checksums.also omitted p fs) w :=
  h.of_truthful fun _ _ hq homitted => absurd (Or.inl homitted) hq

theorem Checked.marked {out created : FileMetadataRecord} {version : Int}
    (hlocal : d.backend = .local) (h : Checked d job location target out w)
    (hexec : World.Exec d .none w (.metadata (.markReady job.partition job.out.id version out))
      (.ok created) w') : Marked d job location target w' := by
  obtain ⟨⟨hsound, hunready, hlocation⟩, hsource, o, ho, hattests⟩ := h
  obtain ⟨hlocations, hstores⟩ := hexec.metadata_frame
  rcases hexec.markReady hlocal with ⟨-, e, hr⟩ | ⟨v, hrow, hstate, -, -, -, hrows⟩
  · cases hr
  · rw [hsource] at hrows
    refine ⟨(hsound.also).of_rows hlocations hstores ?_, by rwa [hlocations], ?_⟩
    · intro q s v' hq hv' hready
      rwa [hrows, if_neg (not_also hq).2] at hv'
    · intro v' o' hv' ho'
      rw [World.object_of_stores hstores, ho] at ho'
      cases ho'
      rw [hrows, if_pos ⟨rfl, rfl⟩] at hv'
      cases hv'
      exact hattests

/-- What the attempt to mark the row leaves. -/
def MarkTried (d : Deployment) (job : CreateJob) (location : FileLocation) (target : ObjectRef) :
    Result FileMetadataRecord → World → Prop
  | .ok _ => Marked d job location target
  | .error _ => AllSound d

variable (hlocal : d.backend = .local)
include hlocal

theorem ensures_storeRecord {out : FileMetadataRecord} {version : Int}
    (hclaim : job.claim = some version) :
    Action.Ensures (served d) (Checked d job location target out) (job.storeRecord out target)
      (fun _ => Marked d job location target) fun _ => AllSound d := by
  unfold CreateJob.storeRecord
  rw [hclaim]
  refine .bind (Q := MarkTried d job location target) (ensures_ask stable_checked fun w r w' hw hexec => ?_) fun r => ?_
  · cases r with
    | ok created => exact hw.marked hlocal hexec
    | error e =>
      obtain ⟨hlocations, hstores⟩ := hexec.metadata_frame
      rcases hexec.markReady hlocal with ⟨hsame, -⟩ | ⟨v, -, -, -, -, hr | ⟨hfault, -⟩, -⟩
      · exact hw.1.1.of_rows hlocations hstores fun _ _ v _ hv _ => by rwa [hsame] at hv
      · cases hr
      · exact hfault.elim
  · cases r with
    | ok created => exact Action.ensures_pure fun w hw => hw
    | error e => exact ensures_abortWith hlocal job _ _

/-- How the part under the lease ends: with the invariant, or with a record to publish. -/
def Registers (d : Deployment) (job : CreateJob) (out : CreateJob.Registration) (w : World) : Prop :=
  match out with
  | .existing _ => AllSound d w
  | .created _ location source target =>
    Aimed d job location source target ∧ Marked d job location target w

omit hlocal in
theorem stable_registers {out : CreateJob.Registration} : Stable (Registers d job out) := by
  cases out with
  | existing recordId => exact stable_sound
  | created record location source target =>
    exact fun w w' hsame h => ⟨h.1, stable_marked w w' hsame h.2⟩

end Marking

section Publishing
variable {job : CreateJob} {renewer : Option Nat} {version : Int}

/-- The file source of a registration is claimed. -/
def Holding (d : Deployment) (job : CreateJob) : World → Prop :=
  SoundWith d (fun _ _ => False) fun metadata _ => Unready metadata job.partition job.fileSource

theorem stable_holding : Stable (Holding d job) := stable_soundWith

variable (hlocal : d.backend = .local) (hhash : ∀ data, d.sha256Hex data ≠ "")
variable (hu : job.u.sha256Hex = d.sha256Hex) (hclaim : job.claim = some version)
include hlocal hhash hu hclaim

theorem ensures_registerFound :
    Action.Ensures (served d) (Holding d job) (job.registerFound renewer) (Registers d job)
      fun _ => AllSound d := by
  unfold CreateJob.registerFound
  refine .bind (ensures_findByFileSource stable_holding) fun r => ?_
  cases r with
  | error e =>
    exact (ensures_abortWith hlocal job _ _).mono (fun w hw => hw.2.1) (fun _ _ hw => hw)
      fun _ _ hw => hw
  | ok location =>
    refine .mono (P := Under d job location) ?_ (fun w hw => ⟨hw.2.1, hw.2.2, hw.1 _ rfl⟩)
      (fun _ _ hw => hw) fun _ _ hw => hw
    refine .bind (ensures_objectRef fun _ w hw => hw.1) fun source => ?_
    refine .of_fact (fun w hw => hw.1) fun hsource => .mono (P := Under d job location) ?_
      (fun w hw => hw.2) (fun _ _ hw => hw) fun _ _ hw => hw
    refine ensures_try (ensures_containerFor stable_soundWith) (fun container => ?_)
      fun _ w hw => hw.1
    refine .of_fact (fun w hw => hw.1) fun hcontainer => .mono (P := Under d job location) ?_
      (fun w hw => hw.2) (fun _ _ hw => hw) fun _ _ hw => hw
    have haimed : Aimed d job location source { container, key := source.key } :=
      ⟨hsource, rfl, hcontainer⟩
    refine .bind (ensures_obtainPersistent hlocal haimed) fun out => ?_
    cases out with
    | inl recordId => exact Action.ensures_pure fun w hw => hw
    | inr st =>
      refine .bind (ensures_abortIfLeaseLost hlocal stable_wrote fun w hw => hw.1.1) fun _ => ?_
      refine .bind (ensures_checksummed hlocal hhash hu) fun out => ?_
      refine .bind (ensures_abortIfLeaseLost hlocal stable_checked fun w hw => hw.1.1) fun _ => ?_
      refine .bind (ensures_storeRecord hlocal hclaim) fun record => ?_
      exact Action.ensures_pure fun w hw => ⟨haimed, hw⟩

theorem ensures_register :
    Action.Ensures (served d) (Holding d job) (job.register renewer) (Registers d job)
      fun _ => AllSound d := by
  rw [CreateJob.register_eq]
  split
  · exact .bind (ensures_ask stable_holding fun w _ w' hw hexec =>
      stable_holding w w' (hexec.quiet trivial) hw) fun _ =>
        ensures_registerFound hlocal hhash hu hclaim
  · exact ensures_registerFound hlocal hhash hu hclaim

omit hlocal hhash hu hclaim in
theorem keeps_releaseLease {R : World → Prop} (hR : Stable R) (u : UseCasePorts)
    (caller : CallerContext) (fileSource recordId : String) (renewer : Nat) :
    Keeps d R (releaseLease u caller fileSource recordId renewer) := by
  unfold releaseLease
  refine .bind (keeps_quiet hR trivial) fun _ => .bind (keeps_quiet hR trivial) fun r => ?_
  cases r with
  | ok a => exact keeps_pure
  | error e => exact keeps_idle (X := fun _ => True) hR (idle_recordFailure ..)

theorem ensures_registerUnderLease :
    Action.Ensures (served d) (Holding d job) job.registerUnderLease (Registers d job)
      fun _ => AllSound d := by
  have habort : ∀ e, Action.Ensures (served d) (Holding d job)
      (job.abortWith (α := CreateJob.Registration) none e) (Registers d job) fun _ => AllSound d :=
    fun e => (ensures_abortWith hlocal job _ e).mono (fun w hw => hw.1) (fun _ _ hw => hw)
      fun _ _ hw => hw
  unfold CreateJob.registerUnderLease
  split
  · have howned : Keeps d (Holding d job)
        (Action.attempt (ensureLeaseOwnership job.u job.caller job.fileSource)) :=
      .attempt (keeps_idle (X := fun _ => True) stable_holding
        (idle_ensureLeaseOwnership (fun _ => trivial) ..))
    refine .bind (howned.mono (fun _ hw => hw) (fun _ _ hw => hw) fun _ w hw => hw.1) fun r => ?_
    cases r with
    | error e => exact habort e
    | ok a =>
      refine .bind (ensures_ask stable_holding fun w _ w' hw hexec =>
        stable_holding w w' (hexec.quiet trivial) hw) fun renewer => ?_
      refine ensures_destructing ?_ (fun _ => stable_registers) (fun _ => stable_sound)
        fun R hR => keeps_releaseLease hR _ _ _ _ _
      unfold CreateJob.registerLeased
      refine .bind (Q := fun _ => Holding d job) (ensures_ask stable_holding fun w _ w' hw hexec =>
        stable_holding w w' (hexec.quiet trivial) hw) fun lost => ?_
      cases lost with
      | true => exact habort _
      | false => exact ensures_register hlocal hhash hu hclaim
  · exact ensures_register hlocal hhash hu hclaim

end Publishing

section Migration
variable {job : CreateJob} {location : FileLocation} {source target : ObjectRef}

/-- The migrated location record completes the invariant. -/
theorem Marked.migrated (h : Marked d job location target w)
    (haimed : Aimed d job location source target) (hp : job.partition ≠ "") {userId : String}
    {now : Int} {r : Result Unit} (hexec : World.Exec d .none w (.locations (.save job.partition
      (CreateJob.migrated location target userId now))) r w') : AllSound d w' := by
  obtain ⟨hsound, hlocation, hattests⟩ := h
  obtain ⟨hmetadata, -, hstores⟩ := hexec.locations_frame
  obtain ⟨hid, hsource⟩ := InMemoryLocationRepository.byFileSource_eq_some.mp hlocation
  have hplaced := hsound.placed hid
  obtain ⟨hfs, hfree, hput⟩ : ∃ hfs hfree, w'.locations = w.locations.put job.partition
      (CreateJob.migrated location target userId now) hfs hfree := by
    have hid' : (CreateJob.migrated location target userId now).fileId ≠ "" := hplaced.fileId_ne
    obtain ⟨hfs, hfree, hsave⟩ := InMemoryLocationRepository.save_eq_ok hp hid'
      (w.locations.keyed hid).2 (fun l hl => by
        have hl' : w.locations.byFileSource job.partition job.fileSource = some l := by
          rw [← hsource]
          exact hl
        rw [hlocation] at hl'
        cases hl'
        rfl)
    obtain ⟨uuid, -, -, hw⟩ := World.exec_none hexec
    refine ⟨hfs, hfree, ?_⟩
    rw [hw]
    simp only [World.apply, World.locationCall, hsave]
  obtain ⟨container, parts, hparts, -, hfile, hsafe⟩ := hplaced
  have hkey : target.key = makePosixKey parts := by
    have href := haimed.1.symm.trans hparts
    injection href with href
    rw [haimed.2.1, href]
  have hnew : Placed d job.partition (CreateJob.migrated location target userId now) := by
    refine ⟨target.container, parts, ?_, houses_persistent haimed.2.2, hfile, hsafe⟩
    rw [physicalRef_migrated, hkey]
  have hmoved := hsound.of_put hmetadata hstores hput hnew
    (fun q l hl hne => hsound.distinct hid hl hne) (fun old hold => by
      have hsame := hid.symm.trans hold
      cases hsame
      rfl)
  refine hmoved.of_truthful fun q s _ homitted v hv hstate => ?_
  obtain ⟨rfl, rfl⟩ : q = job.partition ∧ s = job.fileSource := by
    rcases homitted with (hfalse | hsame) | hsame
    · exact hfalse.elim
    · exact hsame
    · exact ⟨hsame.1, hsame.2.trans hsource⟩
  refine ⟨{ container := target.container, key := target.key },
    ⟨CreateJob.migrated location target userId now, ?_, rfl, physicalRef_migrated ..,
      haimed.2.2⟩, fun o ho => ?_⟩
  · rw [hput, InMemoryLocationRepository.byFileSource_put, if_pos ⟨rfl, hsource⟩]
  · rw [hmetadata] at hv
    rw [World.object_of_stores hstores] at ho
    exact hattests v o hv ho

variable (hlocal : d.backend = .local) (hp : job.partition ≠ "")
include hlocal hp

theorem ensures_publishCreated {record : FileMetadataRecord}
    (haimed : Aimed d job location source target) :
    Action.Ensures (served d) (Marked d job location target)
      (job.publishCreated record location source target) (fun _ => AllSound d)
      fun _ => AllSound d := by
  have hidle : ∀ {β : Type} {x : Action β}, IdleAction (fun _ => False) x →
      Action.Ensures (served d) (Marked d job location target) x
        (fun _ => Marked d job location target) fun _ => AllSound d := fun hx =>
    (ensures_idle stable_marked hx).mono (fun _ hw => hw) (fun _ _ hw => hw) fun _ _ hw => hw.1.elim
  have hclean : Keeps d (AllSound d) (job.removeStaging record.id source) := by
    unfold CreateJob.removeStaging
    refine .bind (keeps_harmless hlocal trivial) fun r => ?_
    cases r with
    | error e => exact keeps_pure
    | ok store =>
      refine .bind (keeps_harmless hlocal trivial) fun r => ?_
      cases r with
      | ok a => exact keeps_pure
      | error e => exact keeps_idle (X := fun _ => True) stable_sound (idle_recordFailure ..)
  unfold CreateJob.publishCreated
  refine .bind (hidle (idle_publishStatus ..)) fun _ => ?_
  refine .bind (hidle (idle_publishDatasetDetails ..)) fun _ => ?_
  refine .bind (ensures_ask stable_marked fun w _ w' hw hexec =>
    stable_marked w w' (hexec.quiet trivial) hw) fun now => ?_
  refine .bind (Q := fun _ => AllSound d) (ensures_ask stable_marked fun w r w' hw hexec =>
    hw.migrated haimed hp hexec) fun _ => ?_
  split
  · exact .bind hclean fun _ => keeps_pure
  · exact keeps_pure

end Migration

section Execute
variable {u : UseCasePorts} {caller : CallerContext}
variable (hlocal : d.backend = .local) (hhash : ∀ data, d.sha256Hex data ≠ "")
variable (hu : u.sha256Hex = d.sha256Hex)
include hlocal hhash hu

theorem ensures_complete {out : FileMetadataRecord} {version : Int} (hp : caller.partition ≠ "") :
    Action.Ensures (served d) (Holding d { u, caller, out, claim := some version })
      (CreateJob.complete { u, caller, out, claim := some version }) (fun _ => AllSound d)
      fun _ => AllSound d := by
  have hjob : CreateJob.partition { u, caller, out, claim := some version } ≠ "" := hp
  unfold CreateJob.complete
  refine .bind (ensures_registerUnderLease hlocal hhash hu rfl) fun registration => ?_
  cases registration with
  | existing recordId => exact Action.ensures_pure fun w hw => hw
  | created record location source target =>
    refine .of_fact (fun w hw => hw.1) fun haimed => ?_
    refine .bind (.mono (ensures_publishCreated hlocal hjob haimed) (fun w hw => hw.2)
      (fun _ _ hw => hw) fun _ _ hw => hw) fun recordId => keeps_pure

theorem keeps_claimAndComplete (polls : Nat) (out : FileMetadataRecord) :
    Keeps d (AllSound d) (claimAndComplete polls u caller out) := by
  have hreturn : ∀ record, Keeps d (AllSound d) (returnExistingRecord u caller record) :=
    fun record => keeps_idle (X := fun _ => True) stable_sound
      (idle_returnExistingRecord (fun _ => trivial) ..)
  have hpoll : ∀ deadline, Keeps d (AllSound d)
      (pollExistingClaim u caller out.fileSource deadline polls) := by
    intro deadline
    induction polls with
    | zero => exact keeps_throw
    | succ polls ih =>
      refine .bind (keeps_harmless hlocal trivial) fun r => ?_
      cases r with
      | ok existing => exact hreturn existing
      | error e =>
        refine .bind (keeps_harmless hlocal trivial) fun now => ?_
        split
        · exact keeps_throw
        · exact .bind (keeps_harmless hlocal trivial) fun _ => ih
  unfold claimAndComplete
  refine Action.Ensures.bind (Q := fun r w => AllSound d w ∧ ∀ claim, r = .ok claim → claim.claimed = true →
    caller.partition ≠ "" ∧ Unready w.metadata caller.partition out.fileSource)
    (ensures_ask stable_sound fun w r w' hw hexec => ⟨hw.harmless hlocal hexec trivial, ?_⟩)
    fun r => ?_
  · intro claim hr hclaimed
    rcases hexec.claimForWrite hlocal with ⟨-, hfound⟩ | ⟨hp, -, hrows, -⟩
    · exact absurd hclaimed (by simp [(hfound claim hr).1])
    · refine ⟨hp, fun v hv hstate => ?_⟩
      rw [hrows, if_pos ⟨rfl, rfl⟩] at hv
      cases hv
      cases hstate
  · refine Action.Ensures.bind (Q := fun claim w => AllSound d w ∧ (claim.claimed = true →
      caller.partition ≠ "" ∧ Unready w.metadata caller.partition out.fileSource))
      (ensures_tryResult (fun claim w hr hw => ⟨hw.1, hw.2 claim hr⟩) fun _ _ _ hw => hw.1)
      fun claim => ?_
    split
    · rename_i hclaimed
      refine .of_fact (fun w hw => (hw.2 hclaimed).1) fun hp => ?_
      exact (ensures_complete hlocal hhash hu hp).mono (fun w hw => ⟨hw.1, (hw.2 hclaimed).2⟩)
        (fun _ _ hw => hw) fun _ _ hw => hw
    · refine .mono (P := AllSound d) ?_ (fun w hw => hw.1) (fun _ _ hw => hw) fun _ _ hw => hw
      cases claim.state with
      | ready => exact .bind (hreturn claim.record) fun _ => keeps_pure
      | claiming =>
        exact .bind (.bind (keeps_harmless hlocal trivial) fun now => hpoll _) fun _ => keeps_pure
      | deleted => exact keeps_throw

/-- `CreateFileMetadata::Execute` keeps the invariant. -/
theorem keeps_createFileMetadata (polls : Nat) (record : FileMetadataRecord) :
    Keeps d (AllSound d) (createFileMetadata polls u caller record) := by
  refine ensures_audited ?_ (fun _ => stable_sound) (fun _ => stable_sound) fun _ _ _ hw => hw
  refine .bind (keeps_idle stable_sound (idle_checkRequest record)) fun _ => ?_
  refine .bind (keeps_harmless hlocal trivial) fun uuid => ?_
  refine .bind (keeps_harmless hlocal trivial) fun r => ?_
  cases r with
  | ok existing =>
    exact .bind (keeps_idle (X := fun _ => True) stable_sound
      (idle_returnExistingRecord (fun _ => trivial) ..)) fun _ => keeps_pure
  | error e =>
    refine Action.Ensures.bind (Q := fun capabilities w => capabilities.atomicClaim = true ∧ AllSound d w)
      (ensures_ask stable_sound fun w r w' hw hexec =>
        ⟨?_, hw.harmless hlocal hexec trivial⟩) fun capabilities => ?_
    · obtain ⟨uuid, -, rfl, -⟩ := World.exec_none hexec
      simp only [World.apply, hlocal]
    · refine .of_fact (fun w hw => hw.1) fun hatomic => ?_
      rw [if_pos hatomic]
      exact (keeps_claimAndComplete hlocal hhash hu polls _).mono (fun w hw => hw.2)
        (fun _ _ hw => hw) fun _ _ hw => hw

end Execute

end FileService.Checksums
