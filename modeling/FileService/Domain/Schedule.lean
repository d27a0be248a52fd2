import FileService.Domain.World

/-!
# Schedules of port calls

A schedule says for each call whether it is done, lost or done without being
acknowledged, and when time passes. Carrying it out gives a run of the machine.
-/
namespace FileService.Domain
open FileService.Common FileService.Interaction FileService.Infra

/-- How one move of a schedule comes out. -/
inductive Choice where
  | done (uuid : String)
  | lost (e : Error)
  | unacknowledged (e : Error)
  | clock (dt steady : Nat)
  | renew (handle : Nat)

namespace World

instance (w : World) (uuid : String) : Decidable (w.Fresh uuid) :=
  decidable_of_iff (uuid ≠ "" ∧ uuid ∉ w.drawn ∧
      ∀ b ∈ w.locations.table.byId.toList, (b.2[uuid]?).isNone = true) <| by
    refine and_congr Iff.rfl (and_congr Iff.rfl ⟨fun h partition => ?_, fun h b hb => ?_⟩)
    · cases hb : w.locations.table.byId[partition]? with
      | none => simp [InMemoryLocationRepository.byFileId, Buckets.get?, hb]
      | some bucket =>
        have hmem := Std.ExtTreeMap.mem_toList_iff_getElem?_eq_some.mpr hb
        simpa [InMemoryLocationRepository.byFileId, Buckets.get?, hb] using h _ hmem
    · have hget := Std.ExtTreeMap.mem_toList_iff_getElem?_eq_some.mp
        (show (b.1, b.2) ∈ w.locations.table.byId.toList from hb)
      have hnone := h b.1
      simp only [InMemoryLocationRepository.byFileId, Buckets.get?, hget, Option.bind_some] at hnone
      simp [hnone]

instance : DecidablePred Faults.none.lost := fun _ => isFalse id
instance : DecidablePred Faults.none.unacknowledged := fun _ => isFalse id
instance : DecidablePred Faults.lostOnly.lost := fun _ => isTrue trivial
instance : DecidablePred Faults.lostOnly.unacknowledged := fun _ => isFalse id
instance : DecidablePred Faults.any.lost := fun _ => isTrue trivial
instance : DecidablePred Faults.any.unacknowledged := fun _ => isTrue trivial
instance : DecidablePred Faults.butRelease.lost := fun op =>
  inferInstanceAs (Decidable (isClaimRelease op = false))
instance : DecidablePred Faults.butRelease.unacknowledged := fun op =>
  inferInstanceAs (Decidable (isClaimRelease op = false))

/-- Time passes, or a renewer that is due renews its lease. -/
def pass (choice : Choice) (w : World) : Option World :=
  match choice with
  | .clock dt steady =>
    some { w with nowMillis := w.nowMillis + dt, steadyMillis := w.steadyMillis + steady }
  | .renew handle =>
    match w.renewers[handle]? with
    | some renewer =>
      if renewer.stopped = false ∧ renewer.dueAtSteadyMillis ≤ w.steadyMillis then
        some (w.afterRenewal handle renewer (w.renewed renewer).1 (w.renewed renewer).2)
      else none
    | none => none
  | _ => none

theorem tick_of_pass {faults : Faults} {choice : Choice} {w w' : World}
    (h : pass choice w = some w') :
    Tick faults w w' := by
  cases choice with
  | clock dt steady =>
    cases h
    exact Tick.clock dt steady
  | renew handle =>
    simp only [pass] at h
    split at h
    · rename_i renewer hrenewer
      split_ifs at h with hdue
      cases h
      exact Tick.renew ⟨hrenewer, hdue⟩
    · cases h
  | done uuid => cases h
  | lost e => cases h
  | unacknowledged e => cases h

section Driver
variable (d : Deployment) (faults : Faults)
variable [DecidablePred faults.lost] [DecidablePred faults.unacknowledged]

def drawsUuid : Port → Bool
  | .newUuidNoDash => true
  | _ => false

/-- One call with a chosen outcome, if the machine allows it. -/
def choose (choice : Choice) (w : World) (op : Port) : Option (op.Reply × World) :=
  match choice with
  | .done uuid =>
    if drawsUuid op = true ∧ ¬w.Fresh uuid then none else some (w.apply d uuid op)
  | .lost e => if faults.lost op then (op.failed e).map (·, w) else none
  | .unacknowledged e =>
    if faults.unacknowledged op then (op.failed e).map (·, (w.apply d "" op).2) else none
  | _ => none

theorem exec_of_choose {choice : Choice} {w w' : World} {op : Port} {r : op.Reply}
    (h : choose d faults choice w op = some (r, w')) : Exec d faults w op r w' := by
  cases choice with
  | done uuid =>
    simp only [choose] at h
    split_ifs at h with hfresh
    have hw : w.apply d uuid op = (r, w') := Option.some.inj h
    have hexec : Exec d faults w op (w.apply d uuid op).1 (w.apply d uuid op).2 := by
      refine Exec.done uuid fun hop => ?_
      subst hop
      by_contra hnot
      exact hfresh ⟨rfl, hnot⟩
    rwa [hw] at hexec
  | lost e =>
    simp only [choose] at h
    split_ifs at h with hfault
    obtain ⟨r', hr, heq⟩ := Option.map_eq_some_iff.mp h
    cases heq
    exact Exec.lost hfault hr
  | unacknowledged e =>
    simp only [choose] at h
    split_ifs at h with hfault
    obtain ⟨r', hr, heq⟩ := Option.map_eq_some_iff.mp h
    cases heq
    exact Exec.unacknowledged hfault hr
  | clock dt steady => cases h
  | renew handle => cases h

/-- Schedules of the machine of a deployment. -/
def driver : Machine.Driver (serviceMachine d faults) Choice where
  exec choice w op := choose d faults choice w op
  env choice w := pass choice w
  exec_sound h := exec_of_choose d faults h
  env_sound h := tick_of_pass h

end Driver

end World

section Sample

/-- One local store for everything, with the default containers. -/
def sampleDeployment : Deployment where
  store _ _ := "store"
  sha256Hex _ := "e3b0c44298fc1c149afbf4c8996fb92427ae41e4649b934ca495991b7852b855"

def samplePorts : UseCasePorts where
  sha256Hex := sampleDeployment.sha256Hex

def sampleCaller : CallerContext where
  partition := "p"
  userId := "u"

def sampleSource : String := "/f"

def sampleKey : String := "f"

/-- A record that passes the validation. -/
def sampleRecord : FileMetadataRecord where
  kind := "o:wks:dataset--File.Generic:1.0.0"
  acl := { viewers := ["data.x@a.b"], owners := ["data.x@a.b"] }
  legal := { legaltags := ["t"], otherRelevantDataCountries := ["US"] }
  data := { datasetProperties := { fileSourceInfo := { fileSource := sampleSource } } }

def sampleLocation (zone : StorageZone) (container : String) : FileLocation where
  fileId := "f"
  zone
  fileSource := sampleSource
  userId := "u"
  extra := ((Json.Value.object []).set "container" (.string container)).set "object_key"
    (.string sampleKey)

/-- A store that holds one empty object. -/
def sampleStore (ref : ObjectRef) : InMemoryBlobStore :=
  (InMemoryBlobStore.put sampleDeployment.sha256Hex
    (InMemoryBlobStore.ensureContainer {} ref.container).2 0 ref [] {}).2

/-- A state with one location record and the object it names. -/
def sampleWorld (location : FileLocation) (ref : ObjectRef) : World where
  locations := (InMemoryLocationRepository.save {} "p" location).2
  stores _ := sampleStore ref
  nowMillis := 1614784413120

/-- The sample file before its registration. -/
def stagedWorld : World :=
  sampleWorld (sampleLocation .staging "p-staging") ⟨"p-staging", sampleKey, none⟩

/-- The sample file when its object was moved, but no record is there. -/
def migratedWorld : World :=
  sampleWorld (sampleLocation .persistent "p-persistent")
    ⟨"p-persistent", sampleKey, none⟩

/-- The calls of a single thread, with their outcomes. -/
def calls (outcomes : List Choice) : List (Machine.Move Unit Choice) := outcomes.map (.call ())

/-- Calls that are done, with one identifier to draw. -/
def doneCalls (n : Nat) : List Choice := List.replicate n (.done "a")

variable (faults : World.Faults) [DecidablePred faults.lost] [DecidablePred faults.unacknowledged]

/-- What a schedule makes of a single program on the sample deployment. -/
@[irreducible] def sampleRun {α : Type} (p : Program ports α) (w : World) (outcomes : List Choice) :
    History ports Unit World × Machine.Config ports Unit World fun _ => α :=
  (World.driver sampleDeployment faults).replay ⟨fun _ => p, w⟩ (calls outcomes)

theorem runs_sampleRun {α : Type} (p : Program ports α) (w : World) (outcomes : List Choice)
    (test : α → Bool)
    (h : (Machine.ended? ((sampleRun faults p w outcomes).2.threads ())).any test = true) :
    ∃ a, test a = true ∧ (serviceMachine sampleDeployment faults).Runs p w a
      (sampleRun faults p w outcomes).1 (sampleRun faults p w outcomes).2.state := by
  unfold sampleRun at h ⊢
  exact (World.driver sampleDeployment faults).runs_replay p w (calls outcomes) test h

end Sample

end FileService.Domain
