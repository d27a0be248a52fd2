import FileService.Domain.Schedule
import FileService.Safety.CreateTracking

/-!
# What a rollback may destroy

The rollback of a creation removes the object at its target, whether it wrote
that object or only found it, unless a lookup finds a record of the file source.
So both laws below rest on that lookup: that a failing creation leaves the
object at its target alone, and that no ready record loses its object.
-/
namespace FileService.Safety
open FileService.Common FileService.Domain FileService.Interaction FileService.App
open FileService.Infra FileService.Protocols CreatePhase World

section Events
variable {ι : Type}

/-- A lookup by file source. -/
def looksUp : Event ports ι World → Bool
  | ⟨_, .metadata (.getLatestByFileSource ..), _, _⟩ => true
  | _ => false

/-- A lookup by file source that found a record. -/
def finds : Event ports ι World → Bool
  | ⟨_, .metadata (.getLatestByFileSource ..), .ok _, _⟩ => true
  | _ => false

/-- A location record was found by its file source. -/
def locates : Event ports ι World → Bool
  | ⟨_, .locations (.findByFileSource ..), .ok _, _⟩ => true
  | _ => false

/-- The location record that a `Save` was called with. -/
def saves? : Event ports ι World → Option FileLocation
  | ⟨_, .locations (.save _ location), _, _⟩ => some location
  | _ => none

/-- `remove` was called for this object. -/
def removes (store : StoreId) (ref : ObjectRef) : Event ports ι World → Bool
  | ⟨_, .blobs s (.remove target), _, _⟩ => decide (s = store ∧ SamePlace target ref)
  | _ => false

theorem removes_of_quiet {e : Event ports ι World} {store : StoreId} {ref : ObjectRef}
    (hq : e.op.Quiet) : removes store ref e = false := by
  obtain ⟨i, op, r, w⟩ := e
  cases op with
  | blobs s call =>
    cases call with
    | remove target => exact False.elim hq
    | _ => rfl
  | _ => rfl

end Events

/-- The staging object of the location does not lie where the persistent one belongs. -/
def Separate (d : Deployment) (p : String) (location : FileLocation) (source : ObjectRef) : Prop :=
  location.zone = .staging → d.store p .staging = d.store p .persistent →
    ∀ container, PersistentContainer d p container → source.container ≠ container

theorem Separate.not_target {d : Deployment} {p : String} {location : FileLocation}
    {source target : ObjectRef} (h : Separate d p location source) (hzone : location.zone = .staging)
    (htarget : TargetOf d p location source target) :
    ¬(d.store p .persistent = d.store p .staging ∧ SamePlace source target) := by
  obtain ⟨-, container, hcontainer, rfl⟩ := htarget
  rintro ⟨hstore, hsame, -⟩
  exact h hzone hstore.symm container hcontainer hsame

variable {d : Deployment} {p fs : String} {faults : Faults} {w w' : World}
variable {h : History ports Unit World} {φ φ' : CreatePhase} {op : Port} {r : op.Reply}

section Failing

/-- After the location was found, every lookup by file source finds a record. -/
def guardFinds : History ports Unit World → Bool
  | [] => true
  | e :: h => (!(h.any locates && looksUp e) || finds e) && guardFinds h

/-- The object at the target is there, and nothing is about to remove it. -/
structure Keeps (d : Deployment) (p fs : String) (start : Option FileLocation) (target : ObjectRef)
    (φ : CreatePhase) (h : History ports Unit World) (w : World) : Prop where
  tracks : Tracks d p fs start φ w
  safe : doomed? φ = none
  seen : (location? φ).isSome = true → h.any locates = true
  object : (w.object (d.store p .persistent) target).isSome = true

variable {start : Option FileLocation} {target : ObjectRef}

theorem Keeps.step {location : FileLocation} {source : ObjectRef}
    (hstart : start = some location) (htarget : TargetOf d p location source target)
    (hseparate : Separate d p location source) (hinv : Keeps d p fs start target φ h w)
    (hexec : Exec d faults w op r w') (hstep : CreateStep d p fs φ op r φ')
    (hguard : guardFinds (⟨(), op, r, w⟩ :: h) = true) :
    Keeps d p fs start target φ' (⟨(), op, r, w⟩ :: h) w' := by
  have htracks := hinv.tracks.step hexec hstep
  have hsafe := hinv.safe
  have hquiet : op.Quiet → (w'.object (d.store p .persistent) target).isSome = true := fun hop => by
    rw [(hexec.quiet hop).object]
    exact hinv.object
  have hstores : w'.stores = w.stores →
      (w'.object (d.store p .persistent) target).isSome = true := fun hw => by
    rw [object_of_stores hw]
    exact hinv.object
  have hseen : ∀ e : Event ports Unit World, (location? φ).isSome = true →
      (e :: h).any locates = true := fun e hφ => by
    rw [List.any_cons, hinv.seen hφ, Bool.or_true]
  cases hstep with
  | idle hop => exact ⟨htracks, hsafe, hseen _, hquiet hop.1⟩
  | found => exact ⟨htracks, rfl, nofun, hquiet trivial⟩
  | unclaimed => exact ⟨htracks, rfl, nofun, hquiet trivial⟩
  | claim => exact ⟨htracks, rfl, nofun, hstores hexec.metadata_frame.2⟩
  | taken => exact ⟨htracks, rfl, nofun, hstores hexec.metadata_frame.2⟩
  | refused => exact ⟨htracks, rfl, nofun, hstores hexec.metadata_frame.2⟩
  | locate => exact ⟨htracks, rfl, fun _ => rfl, hquiet trivial⟩
  | unlocated => exact ⟨htracks, rfl, nofun, hquiet trivial⟩
  | aim => exact ⟨htracks, rfl, hseen _, hquiet trivial⟩
  | misplace => exact ⟨htracks, rfl, hseen _, hquiet trivial⟩
  | copy =>
    refine ⟨htracks, rfl, hseen _, ?_⟩
    rcases hexec.copy with ⟨hsame, -⟩ | ⟨o, -, hobjects⟩
    · rw [hsame]
      exact hinv.object
    · rw [hobjects]
      split_ifs
      · rfl
      · exact hinv.object
  | put =>
    refine ⟨htracks, rfl, hseen _, ?_⟩
    rcases hexec.put with ⟨hsame, -⟩ | ⟨o, -, hobjects⟩
    · rw [hsame]
      exact hinv.object
    · rw [hobjects]
      split_ifs
      · rfl
      · exact hinv.object
  | reuse => exact ⟨htracks, rfl, hseen _, hquiet trivial⟩
  | yield => exact ⟨htracks, rfl, nofun, hquiet trivial⟩
  | fallBack => exact ⟨htracks, rfl, nofun, hquiet trivial⟩
  | giveWay => exact ⟨htracks, rfl, nofun, hstores hexec.metadata_frame.2⟩
  | keep => exact ⟨htracks, rfl, nofun, hquiet trivial⟩
  | abort =>
    simp [guardFinds, hinv.seen rfl, looksUp, finds] at hguard
  | remove => cases hsafe
  | release => exact ⟨htracks, rfl, nofun, hstores hexec.metadata_frame.2⟩
  | mark => exact ⟨htracks, rfl, hseen _, hstores hexec.metadata_frame.2⟩
  | create => exact ⟨htracks, rfl, hseen _, hstores hexec.metadata_frame.2⟩
  | markFailed => exact ⟨htracks, rfl, hseen _, hstores hexec.metadata_frame.2⟩
  | createFailed => exact ⟨htracks, rfl, hseen _, hstores hexec.metadata_frame.2⟩
  | leaseRelease => exact ⟨htracks, hsafe, hseen _, hquiet trivial⟩
  | save => exact ⟨htracks, rfl, hseen _, hstores hexec.locations_frame.2.2⟩
  | @cleanUp id location' source' target' r hzone =>
    refine ⟨htracks, rfl, hseen _, ?_⟩
    obtain rfl := Option.some.inj (hstart.symm.trans (hinv.tracks.located _ rfl))
    obtain ⟨location'', hstart'', hsource', -⟩ := hinv.tracks.aimed _ _ rfl
    obtain rfl := Option.some.inj (hstart.symm.trans hstart'')
    obtain rfl : source = source' := by
      have hsame := htarget.1.symm.trans hsource'
      injection hsame
    rcases hexec.remove with ⟨hsame, -⟩ | hobjects
    · rw [hsame]
      exact hinv.object
    · rw [hobjects, if_neg (hseparate.not_target hzone htarget)]
      exact hinv.object

/-- A creation keeps the object that was at its target before the call, if every lookup that
could hold the rollback back finds a record. -/
theorem createFileMetadata_keeps_object {polls : Nat} {u : UseCasePorts} {caller : CallerContext}
    {record : FileMetadataRecord} {out : Except Exit String} {location : FileLocation}
    {source : ObjectRef}
    (hrun : (serviceMachine d .any).Runs (createFileMetadata polls u caller record).run w out h w')
    (hlocation : w.locations.byFileSource caller.partition record.fileSource = some location)
    (htarget : TargetOf d caller.partition location source target)
    (hobject : (w.object (d.store caller.partition .persistent) target).isSome = true)
    (hseparate : Separate d caller.partition location source) (hguard : guardFinds h = true) :
    (w'.object (d.store caller.partition .persistent) target).isSome = true := by
  have hkeep : Machine.Preserves (serviceMachine d .any)
      (fun _ : Unit => CreateStep d caller.partition record.fileSource) (guardFinds · = true)
      fun φ : Unit → CreatePhase =>
        Keeps d caller.partition record.fileSource (some location) target (φ ()) := by
    constructor
    · intro φ h w i op r w' φ' hinv hexec hstep hguard
      rw [Function.update_self]
      exact hinv.step rfl htarget hseparate hexec hstep hguard
    · intro φ h w w' hinv htick
      exact ⟨hinv.tracks.tick htick, hinv.safe, hinv.seen, by
        rw [(Tick.sameData htick).object]
        exact hinv.object⟩
  have hsuffix : ∀ {e h}, guardFinds (e :: h) = true → guardFinds h = true :=
    fun hg => (Bool.and_eq_true_iff.mp hg).2
  obtain ⟨φ, -, hlast⟩ := hrun.follows (serviceMachine_honours d .any) hkeep hsuffix
    (createFileMetadata_follows d polls u caller record)
    ⟨hlocation ▸ tracks_start w, rfl, nofun, hobject⟩ hguard
  exact hlast.object

/-- The registration of the sample record. -/
abbrev sampleCreation : Program ports (Except Exit String) :=
  (createFileMetadata 1 samplePorts sampleCaller sampleRecord).run

/-- The return of an error. -/
def isError {α : Type} : Except Exit α → Bool
  | .error (.error _) => true
  | _ => false

def sampleTarget : ObjectRef := ⟨"p-persistent", sampleKey, none⟩

/-- The mark is not acknowledged, and the lookup of the rollback finds the record. -/
def guardedOutcomes : List Choice := doneCalls 12 ++ .unacknowledged {} :: doneCalls 20

def guardedRun := sampleRun .any sampleCreation migratedWorld guardedOutcomes

theorem migratedWorld_location : ∃ location,
    migratedWorld.locations.byFileSource sampleCaller.partition sampleRecord.fileSource =
      some location ∧ location.zone = .persistent ∧
    TargetOf sampleDeployment sampleCaller.partition location sampleTarget sampleTarget := by
  have hcheck : (migratedWorld.locations.byFileSource sampleCaller.partition
      sampleRecord.fileSource).any
      (fun l => l.zone = .persistent ∧ physicalRef l = .ref sampleTarget) = true := by
    decide +kernel
  rw [Option.any_eq_true] at hcheck
  obtain ⟨location, hlocation, hl⟩ := hcheck
  obtain ⟨hzone, href⟩ := of_decide_eq_true hl
  have hcontainer : defaultContainer sampleCaller.partition .persistent =
      .ok "p-persistent" := by decide +kernel
  exact ⟨location, hlocation, hzone, href, "p-persistent", .inr hcontainer, rfl⟩

theorem guarded_creation_keeps_object :
    (guardedRun.2.state.object (sampleDeployment.store sampleCaller.partition .persistent)
      sampleTarget).isSome = true := by
  obtain ⟨out, -, hrun⟩ := runs_sampleRun .any sampleCreation migratedWorld guardedOutcomes
    isError (by decide +kernel)
  obtain ⟨location, hlocation, hzone, htarget⟩ := migratedWorld_location
  have hseparate : Separate sampleDeployment sampleCaller.partition location sampleTarget := by
    intro hstaging
    rw [hzone] at hstaging
    cases hstaging
  exact createFileMetadata_keeps_object hrun hlocation htarget (by decide +kernel) hseparate
    (by decide +kernel)

/-- The only copy of a moved file goes when one `stat` fails. -/
theorem failing_creation_destroys_object : ∃ outcomes out,
    (serviceMachine sampleDeployment .any).Runs sampleCreation migratedWorld out
      (sampleRun .any sampleCreation migratedWorld outcomes).1
      (sampleRun .any sampleCreation migratedWorld outcomes).2.state ∧
    isError out = true ∧
    (∃ location, migratedWorld.locations.byFileSource sampleCaller.partition
      sampleRecord.fileSource = some location ∧
      TargetOf sampleDeployment sampleCaller.partition location sampleTarget sampleTarget) ∧
    (migratedWorld.object "store" sampleTarget).isSome = true ∧
    ((sampleRun .any sampleCreation migratedWorld outcomes).2.state.object "store"
      sampleTarget).isNone = true := by
  obtain ⟨out, herror, hrun⟩ := runs_sampleRun .any sampleCreation migratedWorld
    (doneCalls 11 ++ .lost {} :: doneCalls 20) isError (by decide +kernel)
  obtain ⟨location, hlocation, -, htarget⟩ := migratedWorld_location
  exact ⟨_, out, hrun, herror, ⟨location, hlocation, htarget⟩, by decide +kernel⟩

end Failing

section Committed

/-- The file source has a record that readers see. -/
def Ready (d : Deployment) (p fs : String) (w : World) : Prop :=
  (latest d w p fs).isOk = true

instance : Decidable (Ready d p fs w) := by
  unfold Ready
  infer_instance

theorem ready_iff : Ready d p fs w ↔ ∃ record, latest d w p fs = .ok record := by
  unfold Ready
  cases latest d w p fs with
  | ok record => simp
  | error e => simp

/-- A lookup made while the file source has a ready record finds it. -/
def lookupsTruthful (d : Deployment) (p fs : String) (h : History ports Unit World) : Bool :=
  h.all fun e => !(looksUp e && (latest d e.before p fs).isOk) || finds e

/-- After a `Save` the repository holds the saved location record. -/
def SavesTakeEffect (p fs : String) (h : History ports Unit World) : Prop :=
  ∀ e h', (e :: h') <:+ h → ∀ s ∈ h', ∀ location, saves? s = some location →
    e.before.locations.byFileSource p fs = some location

/-- A run in which the repositories tell what they hold. -/
structure Faithful (d : Deployment) (p fs : String) (h : History ports Unit World) : Prop where
  lookups : lookupsTruthful d p fs h = true
  saves : SavesTakeEffect p fs h

theorem Faithful.tail {e : Event ports Unit World} (hc : Faithful d p fs (e :: h)) :
    Faithful d p fs h :=
  ⟨(Bool.and_eq_true_iff.mp hc.lookups).2,
    fun e h' hs => hc.saves e h' (hs.trans (List.suffix_cons _ _))⟩

def NoRemoval (h : History ports Unit World) : Prop :=
  ∀ e ∈ h, ∀ store ref, removes store ref e = false

/-- What a creation has removed, phase by phase, and why no ready record misses it. -/
def Spares (d : Deployment) (p fs : String) : CreatePhase → History ports Unit World → World → Prop
  | .aborting _ _, h, w => NoRemoval h ∧ ¬Ready d p fs w
  | .closing _, h, w => NoRemoval h ∨ ¬Ready d p fs w
  | .released, h, w => NoRemoval h ∨ ¬Ready d p fs w
  | .saved _ location source target, h, w =>
    (∃ s ∈ h, ∃ userId now, saves? s = some (CreateJob.migrated location target userId now)) ∧
    (NoRemoval h ∨ location.zone = .staging ∧
      (∃ userId now,
        w.locations.byFileSource p fs = some (CreateJob.migrated location target userId now)) ∧
      ∀ e ∈ h, ∀ store ref, removes store ref e = true →
        store = d.store p .staging ∧ SamePlace source ref)
  | _, h, _ => NoRemoval h

theorem NoRemoval.cons {e : Event ports Unit World} (hno : NoRemoval h)
    (he : ∀ store ref, removes store ref e = false) : NoRemoval (e :: h) := by
  intro e' he'
  rcases List.mem_cons.mp he' with rfl | he'
  · exact he
  · exact hno e' he'

theorem ready_congr (hm : w'.metadata = w.metadata) (hr : w'.remote = w.remote) :
    Ready d p fs w' ↔ Ready d p fs w := by
  unfold Ready
  rw [latest_congr hm hr]

/-- A step that removes nothing and lets no record appear. -/
theorem Spares.neutral (hinv : Spares d p fs φ h w)
    (he : ∀ store ref, removes store ref (⟨(), op, r, w⟩ : Event ports Unit World) = false)
    (hready : Ready d p fs w' → Ready d p fs w) (hw : w'.locations = w.locations) :
    Spares d p fs φ (⟨(), op, r, w⟩ :: h) w' := by
  have hno : NoRemoval h → NoRemoval (⟨(), op, r, w⟩ :: h) := fun h => h.cons he
  cases φ with
  | aborting job target => exact ⟨hno hinv.1, fun hr => hinv.2 (hready hr)⟩
  | closing job => exact hinv.imp hno fun hn hr => hn (hready hr)
  | released => exact hinv.imp hno fun hn hr => hn (hready hr)
  | saved id location source target =>
    obtain ⟨⟨s, hs, hsaved⟩, hremoved⟩ := hinv
    refine ⟨⟨s, List.mem_cons_of_mem _ hs, hsaved⟩, hremoved.imp hno ?_⟩
    rintro ⟨hzone, hlocation, hplaces⟩
    refine ⟨hzone, by rwa [hw], fun e hmem store ref hrem => ?_⟩
    rcases List.mem_cons.mp hmem with rfl | hmem
    · rw [he] at hrem
      cases hrem
    · exact hplaces e hmem store ref hrem
  | _ => exact hno hinv

/-- Every call of a creation spares the objects of ready records. -/
theorem Spares.step (hinv : Spares d p fs φ h w) (hexec : Exec d faults w op r w')
    (hstep : CreateStep d p fs φ op r φ')
    (hfaithful : Faithful d p fs (⟨(), op, r, w⟩ :: h)) :
    Spares d p fs φ' (⟨(), op, r, w⟩ :: h) w' := by
  have hnone : op.Quiet → ∀ store ref,
      removes store ref (⟨(), op, r, w⟩ : Event ports Unit World) = false :=
    fun hop _ _ => removes_of_quiet hop
  have hquiet : op.Quiet → Ready d p fs w' → Ready d p fs w := fun hop hr =>
    (ready_congr (hexec.quiet hop).metadata (hexec.quiet hop).remote).mp hr
  have hmem := List.mem_cons_self (a := (⟨(), op, r, w⟩ : Event ports Unit World)) (l := h)
  cases hstep with
  | idle hop => exact hinv.neutral (hnone hop.1) (hquiet hop.1) (hexec.quiet hop.1).locations
  | found => exact NoRemoval.cons hinv fun _ _ => rfl
  | unclaimed => exact NoRemoval.cons hinv fun _ _ => rfl
  | claim => exact NoRemoval.cons hinv fun _ _ => rfl
  | taken => exact NoRemoval.cons hinv fun _ _ => rfl
  | refused => exact NoRemoval.cons hinv fun _ _ => rfl
  | locate => exact NoRemoval.cons hinv fun _ _ => rfl
  | unlocated => exact NoRemoval.cons hinv fun _ _ => rfl
  | aim => exact NoRemoval.cons hinv fun _ _ => rfl
  | misplace => exact NoRemoval.cons hinv fun _ _ => rfl
  | copy => exact NoRemoval.cons hinv fun _ _ => rfl
  | put => exact NoRemoval.cons hinv fun _ _ => rfl
  | reuse => exact NoRemoval.cons hinv fun _ _ => rfl
  | yield => exact NoRemoval.cons hinv fun _ _ => rfl
  | fallBack => exact NoRemoval.cons hinv fun _ _ => rfl
  | giveWay => exact NoRemoval.cons hinv fun _ _ => rfl
  | keep => exact .inl (NoRemoval.cons hinv fun _ _ => rfl)
  | abort =>
    refine ⟨NoRemoval.cons hinv fun _ _ => rfl, fun hr => ?_⟩
    have hlookups := hfaithful.lookups
    have hbefore : (latest d w p fs).isOk = true := hquiet trivial hr
    simp [lookupsTruthful, looksUp, finds, hbefore] at hlookups
  | remove =>
    refine .inr fun hr => hinv.2 ?_
    exact (ready_congr hexec.blobs_frame.1 hexec.blobs_frame.2.1).mp hr
  | @release φ job version r hgives hversion =>
    have hready : Ready d p fs w' → Ready d p fs w := by
      intro hr
      obtain ⟨record, hrecord⟩ := ready_iff.mp hr
      exact ready_iff.mpr ⟨record, hexec.latest_of_releaseClaim hrecord⟩
    cases hgives with
    | holding => exact .inl (NoRemoval.cons hinv fun _ _ => rfl)
    | closing => exact hinv.imp (fun hno => hno.cons fun _ _ => rfl) fun hn hr => hn (hready hr)
    | aborting => exact .inl (hinv.1.cons fun _ _ => rfl)
  | mark => exact NoRemoval.cons hinv fun _ _ => rfl
  | create => exact NoRemoval.cons hinv fun _ _ => rfl
  | markFailed => exact NoRemoval.cons hinv fun _ _ => rfl
  | createFailed => exact NoRemoval.cons hinv fun _ _ => rfl
  | leaseRelease =>
    exact hinv.neutral (hnone trivial) (hquiet trivial) (hexec.quiet trivial).locations
  | save => exact ⟨⟨_, hmem, _, _, rfl⟩, .inl (NoRemoval.cons hinv fun _ _ => rfl)⟩
  | @cleanUp id location source target r hzone =>
    obtain ⟨⟨s, hs, userId, now, hsaved⟩, hremoved⟩ := hinv
    have hlocation := hfaithful.saves _ h (List.suffix_refl _) s hs _ hsaved
    refine ⟨⟨s, List.mem_cons_of_mem _ hs, userId, now, hsaved⟩, .inr ⟨hzone, ⟨userId, now, ?_⟩, ?_⟩⟩
    · rw [hexec.blobs_frame.2.2]
      exact hlocation
    · intro e he store ref hrem
      rcases List.mem_cons.mp he with rfl | he
      · obtain ⟨rfl, hsame⟩ := of_decide_eq_true hrem
        exact ⟨rfl, hsame⟩
      · rcases hremoved with hno | ⟨-, -, hplaces⟩
        · rw [hno e he] at hrem
          cases hrem
        · exact hplaces e he store ref hrem

theorem Spares.tick (hinv : Spares d p fs φ h w) (htick : Tick faults w w') :
    Spares d p fs φ h w' := by
  have hdata := Tick.sameData htick
  have hready : ¬Ready d p fs w → ¬Ready d p fs w' := fun hn hr =>
    hn ((ready_congr hdata.metadata hdata.remote).mp hr)
  cases φ with
  | aborting job target => exact ⟨hinv.1, hready hinv.2⟩
  | closing job => exact hinv.imp_right hready
  | released => exact hinv.imp_right hready
  | saved id location source target =>
    refine ⟨hinv.1, hinv.2.imp_right ?_⟩
    rintro ⟨hzone, hlocation, hplaces⟩
    exact ⟨hzone, by rwa [hdata.locations], hplaces⟩
  | _ => exact hinv

/-- What is known of a creation that runs alone. -/
structure Protects (d : Deployment) (p fs : String) (start : Option FileLocation) (φ : CreatePhase)
    (h : History ports Unit World) (w : World) : Prop where
  tracks : Tracks d p fs start φ w
  spares : Spares d p fs φ h w

/-- The migrated location record refers to the target. -/
theorem physicalRef_migrated (location : FileLocation) (target : ObjectRef) (userId : String)
    (now : Int) : physicalRef (CreateJob.migrated location target userId now) =
      .ref { container := target.container, key := target.key } := by
  simp [physicalRef, CreateJob.migrated, extraContainer, extraObjectKey, Json.Value.asString?]

/-- The removals of a protected creation spare a ready record's object: the one that its
location record names, and the one at the target of the registration. -/
theorem Protects.spared {start : Option FileLocation} (hinv : Protects d p fs start φ h w)
    (hseparate : ∀ location source, start = some location → physicalRef location = .ref source →
      Separate d p location source) (hready : Ready d p fs w) {e : Event ports Unit World}
    (he : e ∈ h) :
    (∀ store ref, named? d p fs w = some (store, ref) → removes store ref e = false) ∧
    ∀ location source target, start = some location → TargetOf d p location source target →
      removes (d.store p .persistent) target e = false := by
  have hnone : NoRemoval h → _ := fun hno =>
    And.intro (fun (store : StoreId) (ref : ObjectRef)
        (_ : named? d p fs w = some (store, ref)) => hno e he store ref)
      fun (location : FileLocation) (source target : ObjectRef) (_ : start = some location)
        (_ : TargetOf d p location source target) => hno e he (d.store p .persistent) target
  obtain ⟨htracks, hspares⟩ := hinv
  cases φ with
  | aborting job target => exact absurd hready hspares.2
  | closing job => exact hnone (hspares.resolve_right (absurd hready ·))
  | released => exact hnone (hspares.resolve_right (absurd hready ·))
  | saved id staged source target =>
    rcases hspares.2 with hno | ⟨hzone, ⟨userId, now, hmigrated⟩, hplaces⟩
    · exact hnone hno
    · have hstart := htracks.located staged rfl
      obtain ⟨staged', hstart', htarget⟩ := htracks.aimed source target rfl
      obtain rfl := Option.some.inj (hstart.symm.trans hstart')
      have hkept : ∀ target', TargetOf d p staged source target' →
          removes (d.store p .persistent) target' e = false := by
        intro target' htarget'
        rw [Bool.eq_false_iff]
        intro hrem
        exact (hseparate staged source hstart htarget.1).not_target hzone htarget'
          (hplaces e he _ _ hrem)
      constructor
      · intro store ref hnamed
        obtain ⟨location, hlocation, href, rfl⟩ := named?_eq_some.mp hnamed
        obtain rfl := Option.some.inj (hlocation.symm.trans hmigrated)
        rw [physicalRef_migrated] at href
        injection href with href
        subst href
        apply hkept
        obtain ⟨hsource, container, hcontainer, rfl⟩ := htarget
        exact ⟨hsource, container, hcontainer, rfl⟩
      · intro location source' target' hstart' htarget'
        obtain rfl := Option.some.inj (hstart.symm.trans hstart')
        obtain rfl : source = source' := by
          have hsame := htarget.1.symm.trans htarget'.1
          injection hsame
        exact hkept target' htarget'
  | _ => exact hnone hspares

/-- No run of a creation removes the object that a ready record refers to, if lookups find the
ready records there are and the `Save` of the location takes effect. -/
theorem createFileMetadata_spares_ready {polls : Nat} {u : UseCasePorts} {caller : CallerContext}
    {record : FileMetadataRecord} {out : Except Exit String}
    (hrun : (serviceMachine d .any).Runs (createFileMetadata polls u caller record).run w out h w')
    (hseparate : ∀ location source,
      w.locations.byFileSource caller.partition record.fileSource = some location →
      physicalRef location = .ref source → Separate d caller.partition location source)
    (hfaithful : Faithful d caller.partition record.fileSource h)
    (hready : Ready d caller.partition record.fileSource w') :
    ∀ e ∈ h,
      (∀ store ref, named? d caller.partition record.fileSource w' = some (store, ref) →
        removes store ref e = false) ∧
      ∀ location source target,
        w.locations.byFileSource caller.partition record.fileSource = some location →
        TargetOf d caller.partition location source target →
        removes (d.store caller.partition .persistent) target e = false := by
  have hkeep : Machine.Preserves (serviceMachine d .any)
      (fun _ : Unit => CreateStep d caller.partition record.fileSource)
      (Faithful d caller.partition record.fileSource)
      fun φ : Unit → CreatePhase => Protects d caller.partition record.fileSource
        (w.locations.byFileSource caller.partition record.fileSource) (φ ()) := by
    constructor
    · intro φ h w i op r w' φ' hinv hexec hstep hcond
      rw [Function.update_self]
      exact ⟨hinv.tracks.step hexec hstep, hinv.spares.step hexec hstep hcond⟩
    · intro φ h w w' hinv htick
      exact ⟨hinv.tracks.tick htick, hinv.spares.tick htick⟩
  obtain ⟨φ, -, hlast⟩ := hrun.follows (serviceMachine_honours d .any) hkeep
    Faithful.tail (createFileMetadata_follows d polls u caller record)
    ⟨tracks_start w, fun e he => by cases he⟩ hfaithful
  exact fun e he => hlast.spared hseparate hready he

theorem guarded_creation_spares_ready :
    guardedRun.1.all (fun e => !removes "store" sampleTarget e) = true := by
  obtain ⟨out, -, hrun⟩ := runs_sampleRun .any sampleCreation migratedWorld guardedOutcomes
    isError (by decide +kernel)
  obtain ⟨location, hlocation, hzone, htarget⟩ := migratedWorld_location
  obtain ⟨hsaved, hlookups, hready⟩ : guardedRun.1.all (fun e => (saves? e).isNone) = true ∧
      lookupsTruthful sampleDeployment sampleCaller.partition sampleRecord.fileSource
        guardedRun.1 = true ∧
      Ready sampleDeployment sampleCaller.partition sampleRecord.fileSource
        guardedRun.2.state := by decide +kernel
  have hfaithful : Faithful sampleDeployment sampleCaller.partition sampleRecord.fileSource
      guardedRun.1 := by
    refine ⟨hlookups, fun e h' hsuffix s hs location hsave => ?_⟩
    have hmem : s ∈ guardedRun.1 := hsuffix.subset (List.mem_cons_of_mem _ hs)
    have hnone := List.all_eq_true.mp hsaved s hmem
    rw [hsave] at hnone
    cases hnone
  have hseparate : ∀ l source, migratedWorld.locations.byFileSource sampleCaller.partition
      sampleRecord.fileSource = some l → physicalRef l = .ref source →
      Separate sampleDeployment sampleCaller.partition l source := by
    intro l source hl _ hstaging
    obtain rfl := Option.some.inj (hlocation.symm.trans hl)
    rw [hzone] at hstaging
    cases hstaging
  refine List.all_eq_true.mpr fun e he => ?_
  have hspared : removes "store" sampleTarget e = false :=
    (createFileMetadata_spares_ready hrun hseparate hfaithful hready e he).2 location _ _
      hlocation htarget
  rw [hspared]
  rfl

/-- A mark that took effect but was not acknowledged, and a lookup that fails: the object of a
ready record is removed. -/
theorem ambiguous_mark_loses_object : ∃ outcomes out,
    (serviceMachine sampleDeployment .any).Runs sampleCreation migratedWorld out
      (sampleRun .any sampleCreation migratedWorld outcomes).1
      (sampleRun .any sampleCreation migratedWorld outcomes).2.state ∧
    Ready sampleDeployment sampleCaller.partition sampleRecord.fileSource
      (sampleRun .any sampleCreation migratedWorld outcomes).2.state ∧
    named? sampleDeployment sampleCaller.partition sampleRecord.fileSource
      (sampleRun .any sampleCreation migratedWorld outcomes).2.state = some ("store", sampleTarget) ∧
    (sampleRun .any sampleCreation migratedWorld outcomes).1.any (removes "store" sampleTarget) =
      true := by
  obtain ⟨out, -, hrun⟩ := runs_sampleRun .any sampleCreation migratedWorld
    (doneCalls 12 ++ .unacknowledged {} :: .lost {} :: doneCalls 20) isError (by decide +kernel)
  exact ⟨_, out, hrun, by decide +kernel⟩

end Committed

end FileService.Safety
