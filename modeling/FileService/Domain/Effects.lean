import FileService.Domain.World
import FileService.Infra.MetadataRows
import FileService.Interaction.Reliance

/-!
# What the port calls change

The state is looked at through three views: the row of a file source, the
location record of a file source or id, and the object at a reference. Most
calls change none of them; each of the others has one lemma for its effect.
-/
namespace FileService.Domain
open FileService.Common FileService.Interaction FileService.Infra

namespace World

/-- The object at a reference of a store. -/
def object (w : World) (store : StoreId) (ref : ObjectRef) : Option BlobObject :=
  (w.stores store).objectAt ref.container ref.key

/-- Two states with the same records, locations and objects. -/
structure SameData (w w' : World) : Prop where
  metadata : w'.metadata = w.metadata
  remote : w'.remote = w.remote
  locations : w'.locations = w.locations
  object : ∀ store ref, w'.object store ref = w.object store ref

theorem SameData.refl (w : World) : SameData w w := ⟨rfl, rfl, rfl, fun _ _ => rfl⟩

theorem Tick.sameData {faults : Faults} {w w' : World} (h : Tick faults w w') : SameData w w' := by
  cases h with
  | clock => exact ⟨rfl, rfl, rfl, fun _ _ => rfl⟩
  | renew hdue => exact ⟨rfl, rfl, rfl, fun _ _ => rfl⟩
  | renewLost hdue hfault => exact ⟨rfl, rfl, rfl, fun _ _ => rfl⟩
  | renewUnacknowledged hdue hfault => exact ⟨rfl, rfl, rfl, fun _ _ => rfl⟩

end World

/-- Calls that change no record, no location and no object. -/
def Port.Quiet : Port → Prop
  | .metadata (.getById ..) | .metadata (.getLatestByFileSource ..) | .metadata (.list ..) => True
  | .metadata _ => False
  | .locations (.find ..) | .locations (.findByFileSource ..) | .locations (.list ..) => True
  | .locations _ => False
  | .blobs _ (.put ..) | .blobs _ (.remove ..) | .blobs _ (.copy ..) => False
  | .blobs _ (.removeTempFiles ..) => False
  | _ => True

namespace World
variable {d : Deployment} {faults : Faults} {w w' : World} {op : Port} {r : op.Reply}

theorem object_update {store : StoreId} {blobs : InMemoryBlobStore} (s : StoreId) (ref : ObjectRef) :
    ({ w with stores := Function.update w.stores store blobs } : World).object s ref =
      if s = store then blobs.objectAt ref.container ref.key else w.object s ref := by
  by_cases hs : s = store
  · subst hs
    simp [object]
  · simp [object, hs]

theorem sameData_of_store {store : StoreId} {blobs : InMemoryBlobStore}
    (h : ∀ c k, blobs.objectAt c k = (w.stores store).objectAt c k) :
    SameData w { w with stores := Function.update w.stores store blobs } := by
  refine ⟨rfl, rfl, rfl, fun s ref => ?_⟩
  rw [object_update]
  split_ifs with hs
  · subst hs
    exact h _ _
  · rfl

/-- A quiet call leaves the data as it is, whether it succeeds or fails. -/
theorem apply_quiet (d : Deployment) (uuid : String) (w : World) (hop : op.Quiet) :
    SameData w (w.apply d uuid op).2 := by
  cases op with
  | metadata call =>
    cases hb : d.backend <;> cases call <;> first
      | exact False.elim hop
      | (simp only [apply, hb]; exact ⟨rfl, rfl, rfl, fun _ _ => rfl⟩)
  | locations call =>
    cases call <;> first
      | exact False.elim hop
      | exact ⟨rfl, rfl, rfl, fun _ _ => rfl⟩
  | blobs store call =>
    cases call with
    | put ref data options => exact False.elim hop
    | remove ref => exact False.elim hop
    | copy source target => exact False.elim hop
    | removeTempFiles c t dry => exact False.elim hop
    | ensureContainer c =>
      exact sameData_of_store fun c' k => InMemoryBlobStore.objectAt_ensureContainer _ _ _
    | presignPut ref o => exact sameData_of_store fun _ _ => rfl
    | presignGet ref o => exact sameData_of_store fun _ _ => rfl
    | get ref range => exact sameData_of_store fun _ _ => rfl
    | stat ref => exact sameData_of_store fun _ _ => rfl
    | list c pre token limit => exact sameData_of_store fun _ _ => rfl
  | metadataCapabilities => exact SameData.refl w
  | leases call => exact ⟨rfl, rfl, rfl, fun _ _ => rfl⟩
  | forPartition p z => exact SameData.refl w
  | blobCapabilities s => exact SameData.refl w
  | partitionConfig p => exact SameData.refl w
  | service call => exact SameData.refl w
  | renewer call => exact ⟨rfl, rfl, rfl, fun _ _ => rfl⟩
  | runMutex call => exact ⟨rfl, rfl, rfl, fun _ _ => rfl⟩
  | nowEpochSeconds => exact SameData.refl w
  | nowEpochMillis => exact SameData.refl w
  | nowSteadyMillis => exact SameData.refl w
  | sleepFor ms => exact ⟨rfl, rfl, rfl, fun _ _ => rfl⟩
  | newUuidNoDash => exact ⟨rfl, rfl, rfl, fun _ _ => rfl⟩

theorem Exec.quiet (h : Exec d faults w op r w') (hop : op.Quiet) : SameData w w' := by
  cases h with
  | done uuid => exact apply_quiet d uuid w hop
  | lost => exact SameData.refl w
  | unacknowledged => exact apply_quiet d "" w hop
  | noThread => exact ⟨rfl, rfl, rfl, fun _ _ => rfl⟩

/-- What happened to a call that is not about a renewer. -/
inductive Outcome (d : Deployment) (faults : Faults) (w : World) (op : Port) (r : op.Reply)
    (w' : World) : Prop
  | refused {e : Error} (hr : op.failed e = some r) (hfault : faults.lost op) (hw : w' = w)
  | done (uuid : String) (hr : r = (w.apply d uuid op).1) (hw : w' = (w.apply d uuid op).2)
  | unanswered {e : Error} (hr : op.failed e = some r) (hfault : faults.unacknowledged op)
      (hw : w' = (w.apply d "" op).2)

theorem Exec.outcome (h : Exec d faults w op r w') (hop : ∀ call, op ≠ .renewer call) :
    Outcome d faults w op r w' := by
  cases h with
  | done uuid hfresh => exact .done uuid rfl rfl
  | lost hfault hr => exact .refused hr hfault rfl
  | unacknowledged hfault hr => exact .unanswered hr hfault rfl
  | noThread => exact absurd rfl (hop _)

/-- Without failures a call is done. -/
theorem exec_none (h : Exec d .none w op r w') :
    ∃ uuid, (op = .newUuidNoDash → w.Fresh uuid) ∧ r = (w.apply d uuid op).1 ∧
      w' = (w.apply d uuid op).2 := by
  cases h with
  | done uuid hfresh => exact ⟨uuid, hfresh, rfl, rfl⟩
  | lost hfault hr => exact False.elim hfault
  | unacknowledged hfault hr => exact False.elim hfault
  | noThread hfault => exact False.elim hfault

section Frames

theorem apply_metadata_frame (d : Deployment) (uuid : String) (w : World) (call : MetadataCall) :
    (w.apply d uuid (.metadata call)).2.locations = w.locations ∧
      (w.apply d uuid (.metadata call)).2.stores = w.stores := by
  cases hb : d.backend <;> simp only [apply, hb, and_self]

/-- A call to the metadata repository changes no location and no object. -/
theorem Exec.metadata_frame {call : MetadataCall} {r : Result call.Value}
    (h : Exec d faults w (.metadata call) r w') : w'.locations = w.locations ∧ w'.stores = w.stores := by
  cases h with
  | done uuid => exact apply_metadata_frame d uuid w call
  | lost => exact ⟨rfl, rfl⟩
  | unacknowledged => exact apply_metadata_frame d "" w call

/-- A call to a remote service leaves the local repository alone. -/
theorem Exec.remote_frame {call : MetadataCall} {r : Result call.Value}
    (hremote : d.backend = .remote) (h : Exec d faults w (.metadata call) r w') :
    w'.metadata = w.metadata := by
  cases h with
  | done uuid => simp only [apply, hremote]
  | lost => rfl
  | unacknowledged => simp only [apply, hremote]

/-- A call to the location repository changes no record and no object. -/
theorem Exec.locations_frame {call : LocationCall} {r : Result call.Value}
    (h : Exec d faults w (.locations call) r w') :
    w'.metadata = w.metadata ∧ w'.remote = w.remote ∧ w'.stores = w.stores := by
  cases h <;> exact ⟨rfl, rfl, rfl⟩

/-- A call to a store changes no record and no location. -/
theorem Exec.blobs_frame {store : StoreId} {call : BlobCall} {r : Result call.Value}
    (h : Exec d faults w (.blobs store call) r w') :
    w'.metadata = w.metadata ∧ w'.remote = w.remote ∧ w'.locations = w.locations := by
  cases h <;> exact ⟨rfl, rfl, rfl⟩

theorem object_of_stores (h : w'.stores = w.stores) (store : StoreId) (ref : ObjectRef) :
    w'.object store ref = w.object store ref := by
  simp only [object, h]

end Frames

section Rows

/-- A call to a local metadata repository fails without effect, or it has the effect of the
method and replies with its result or with an error. -/
theorem Exec.local_cases {call : MetadataCall} {r : Result call.Value} (hlocal : d.backend = .local)
    (h : Exec d faults w (.metadata call) r w') :
    (w'.metadata = w.metadata ∧ ∃ e, r = .error e) ∨
    (w'.metadata = (localCall w.nowSeconds w.metadata call).2 ∧
      (r = (localCall w.nowSeconds w.metadata call).1 ∨
        faults.unacknowledged (.metadata call) ∧ ∃ e, r = .error e)) := by
  rcases h.outcome (by simp) with ⟨hr, -, rfl⟩ | ⟨uuid, rfl, rfl⟩ | ⟨hr, hfault, rfl⟩
  · exact .inl ⟨rfl, _, (Option.some.inj hr).symm⟩
  · exact .inr (by simp only [apply, hlocal, true_or, and_self])
  · exact .inr ⟨by simp only [apply, hlocal], .inr ⟨hfault, _, (Option.some.inj hr).symm⟩⟩

variable {p id fs : String} {version : Int} {record : FileMetadataRecord}

/-- A claim leaves the rows alone and tells who holds the source, or it takes the free row. -/
theorem Exec.claimForWrite (hlocal : d.backend = .local) {r : Result MetadataClaim}
    (h : Exec d faults w (.metadata (.claimForWrite p record)) r w') :
    (w'.metadata = w.metadata ∧ ∀ claim, r = .ok claim → claim.claimed = false ∧
      ∃ v, w.metadata.row p record.fileSource = some v ∧ claim.record = v.record ∧
        claim.state = v.state) ∨
    (p ≠ "" ∧ w.metadata.row p record.fileSource = none ∧
      (∀ q s, w'.metadata.row q s = if p = q ∧ record.fileSource = s then
        some (InMemoryMetadataRepository.claimingVersion w.nowSeconds record)
        else w.metadata.row q s) ∧
      (r = .ok ⟨true, { record with version := 1 }, .claiming⟩ ∨
        faults.unacknowledged (.metadata (.claimForWrite p record)) ∧ ∃ e, r = .error e)) := by
  rcases h.local_cases hlocal with ⟨hw, e, rfl⟩ | ⟨hw, hr⟩
  · exact .inl ⟨hw, by simp⟩
  · rcases w.metadata.claimForWrite_cases w.nowSeconds p record with
      ⟨e, hclaim⟩ | ⟨v, hrow, hclaim⟩ | ⟨hp, hrow, hclaim, hrows⟩
    · refine .inl ⟨by rw [hw]; simp only [localCall, hclaim], fun claim hok => ?_⟩
      rcases hr with rfl | ⟨-, e', rfl⟩
      · simp [localCall, hclaim] at hok
      · cases hok
    · refine .inl ⟨by rw [hw]; simp only [localCall, hclaim], fun claim hok => ?_⟩
      rcases hr with rfl | ⟨-, e', rfl⟩
      · simp only [localCall, hclaim, Except.ok.injEq] at hok
        subst hok
        exact ⟨rfl, v, hrow, rfl, rfl⟩
      · cases hok
    · refine .inr ⟨hp, hrow, fun q s => by rw [hw]; exact hrows q s, ?_⟩
      rcases hr with rfl | hlost
      · exact .inl hclaim
      · exact .inr hlost

/-- Only a local repository hands out claims. -/
theorem Exec.claim_local {claim : MetadataClaim}
    (h : Exec d faults w (.metadata (.claimForWrite p record)) (.ok claim) w') :
    d.backend = .local := by
  cases hb : d.backend with
  | «local» => rfl
  | remote =>
    rcases h.outcome (by simp) with ⟨hr, -⟩ | ⟨uuid, hr, -⟩ | ⟨hr, -⟩
    · cases hr
    · simp only [apply, hb, remoteCall] at hr
      cases hr
    · cases hr

/-- A marking leaves the rows alone, or it turns the claiming row into a ready one. -/
theorem Exec.markReady (hlocal : d.backend = .local) {r : Result FileMetadataRecord}
    (h : Exec d faults w (.metadata (.markReady p id version record)) r w') :
    (w'.metadata = w.metadata ∧ ∃ e, r = .error e) ∨
    ∃ v, w.metadata.row p record.fileSource = some v ∧ v.state = .claiming ∧ v.record.id = id ∧
      v.record.version = version ∧
      (r = .ok { record with id := id, version := version } ∨
        faults.unacknowledged (.metadata (.markReady p id version record)) ∧ ∃ e, r = .error e) ∧
      ∀ q s, w'.metadata.row q s = if p = q ∧ record.fileSource = s then
        some (Chain.readyVersion id version record v) else w.metadata.row q s := by
  rcases h.local_cases hlocal with ⟨hw, hr⟩ | ⟨hw, hr⟩
  · exact .inl ⟨hw, hr⟩
  · rcases w.metadata.markReady_cases p id version record with
      ⟨e, hmark⟩ | ⟨v, hrow, hstate, hid, hversion, hmark, hrows⟩
    · refine .inl ⟨by rw [hw]; simp only [localCall, hmark], ?_⟩
      rcases hr with rfl | ⟨-, e', rfl⟩
      · exact ⟨e, by simp only [localCall, hmark]⟩
      · exact ⟨e', rfl⟩
    · refine .inr ⟨v, hrow, hstate, hid, hversion, ?_, fun q s => by rw [hw]; exact hrows q s⟩
      rcases hr with rfl | hlost
      · exact .inl hmark
      · exact .inr hlost

/-- A release leaves the rows alone, or it frees the claiming row of its id and version. -/
theorem Exec.releaseClaim (hlocal : d.backend = .local) {r : Result Unit}
    (h : Exec d faults w (.metadata (.releaseClaim p id version)) r w') :
    (w'.metadata = w.metadata ∧ ∃ e, r = .error e) ∨
    ∃ v, v.state = .claiming ∧ v.record.id = id ∧ v.record.version = version ∧
      w.metadata.row p v.record.fileSource = some v ∧
      ∀ q s, w'.metadata.row q s = if p = q ∧ v.record.fileSource = s then none
        else w.metadata.row q s := by
  rcases h.local_cases hlocal with ⟨hw, hr⟩ | ⟨hw, hr⟩
  · exact .inl ⟨hw, hr⟩
  · rcases w.metadata.releaseClaim_cases p id version with
      ⟨e, hrel⟩ | ⟨v, hstate, hid, hversion, hrow, hrel, hrows⟩
    · refine .inl ⟨by rw [hw]; simp only [localCall, hrel], ?_⟩
      rcases hr with rfl | ⟨-, e', rfl⟩
      · exact ⟨e, by simp only [localCall, hrel]⟩
      · exact ⟨e', rfl⟩
    · exact .inr ⟨v, hstate, hid, hversion, hrow, fun q s => by rw [hw]; exact hrows q s⟩

/-- A lookup by file source that succeeds found the ready row. -/
theorem Exec.getLatest_ok (hlocal : d.backend = .local)
    (h : Exec d faults w (.metadata (.getLatestByFileSource p fs)) (.ok record) w') :
    ∃ v, w.metadata.row p fs = some v ∧ v.state = .ready ∧ v.record = record := by
  rcases h.local_cases hlocal with ⟨-, e, hr⟩ | ⟨-, hr | ⟨-, e, hr⟩⟩
  · cases hr
  · exact InMemoryMetadataRepository.getLatestByFileSource_eq_ok.mp hr.symm
  · cases hr

/-- A deletion of a record leaves the rows alone, or it frees the row of the id. -/
theorem Exec.deleteRecord (hlocal : d.backend = .local) {r : Result Unit}
    (h : Exec d faults w (.metadata (.delete p id)) r w') :
    (w'.metadata = w.metadata ∧ ∃ e, r = .error e) ∨
    ∃ v, v.record.id = id ∧ w.metadata.row p v.record.fileSource = some v ∧
      ∀ q s, w'.metadata.row q s = if p = q ∧ v.record.fileSource = s then none
        else w.metadata.row q s := by
  rcases h.local_cases hlocal with ⟨hw, hr⟩ | ⟨hw, hr⟩
  · exact .inl ⟨hw, hr⟩
  · rcases w.metadata.delete_cases p id with ⟨-, e, hdel⟩ | ⟨v, hid, hrow, hdel, hrows⟩
    · refine .inl ⟨by rw [hw]; simp only [localCall, hdel], ?_⟩
      rcases hr with rfl | ⟨-, e', rfl⟩
      · exact ⟨e, by simp only [localCall, hdel]⟩
      · exact ⟨e', rfl⟩
    · exact .inr ⟨v, hid, hrow, fun q s => by rw [hw]; exact hrows q s⟩

/-- A reclaim takes away nothing but old claiming rows of the sources it was given. -/
theorem Exec.reclaim (hlocal : d.backend = .local) {olderThan limit : Int} {sources : List String}
    {r : Result Int}
    (h : Exec d faults w (.metadata (.reclaimStaleClaiming p olderThan limit sources)) r w')
    (q s : String) : w'.metadata.row q s = w.metadata.row q s ∨
      ∃ v, q = p ∧ w.metadata.row q s = some v ∧
        InMemoryMetadataRepository.Reclaimable olderThan sources v ∧ w'.metadata.row q s = none := by
  rcases h.local_cases hlocal with ⟨hw, -⟩ | ⟨hw, -⟩
  · exact .inl (by rw [hw])
  · rw [hw]
    exact w.metadata.reclaimStaleClaiming_row p olderThan limit sources q s

end Rows

section Latest

/-- The record that a lookup by file source finds, on either kind of repository. -/
def latest (d : Deployment) (w : World) (p fs : String) : Result FileMetadataRecord :=
  (w.apply d "" (.metadata (.getLatestByFileSource p fs))).1

variable {p fs id : String} {version : Int}

theorem latest_congr (hm : w'.metadata = w.metadata) (hr : w'.remote = w.remote) :
    latest d w' p fs = latest d w p fs := by
  cases hb : d.backend <;> simp only [latest, apply, hb, hm, hr, localCall]

theorem latest_local (hlocal : d.backend = .local) :
    latest d w p fs = w.metadata.getLatestByFileSource p fs := by
  simp only [latest, apply, hlocal, localCall]

/-- A release makes no record appear. -/
theorem Exec.latest_of_releaseClaim {q : String} {r : Result Unit} {record : FileMetadataRecord}
    (h : Exec d faults w (.metadata (.releaseClaim q id version)) r w')
    (hready : latest d w' p fs = .ok record) : latest d w p fs = .ok record := by
  cases hb : d.backend with
  | «local» =>
    rw [latest_local hb] at hready ⊢
    rcases h.releaseClaim hb with ⟨hw, -⟩ | ⟨v, -, -, -, -, hrows⟩
    · rwa [hw] at hready
    · obtain ⟨v', hrow, hstate, hrecord⟩ :=
        InMemoryMetadataRepository.getLatestByFileSource_eq_ok.mp hready
      rw [hrows] at hrow
      split_ifs at hrow
      exact InMemoryMetadataRepository.getLatestByFileSource_eq_ok.mpr ⟨v', hrow, hstate, hrecord⟩
  | remote =>
    have hsame : w'.metadata = w.metadata ∧ w'.remote = w.remote := by
      rcases h.outcome (by simp) with ⟨-, -, rfl⟩ | ⟨uuid, -, rfl⟩ | ⟨-, -, rfl⟩
      · exact ⟨rfl, rfl⟩
      · simp only [apply, hb, remoteCall, and_self]
      · simp only [apply, hb, remoteCall, and_self]
    rwa [latest_congr hsame.1 hsame.2] at hready

end Latest

section Objects
variable {store : StoreId} {ref source target : ObjectRef}

theorem Exec.blob_cases {call : BlobCall} {r : Result call.Value}
    (h : Exec d faults w (.blobs store call) r w') :
    (w' = w ∧ ∃ e, r = .error e) ∨
    (w' = { w with
        stores := Function.update w.stores store
          (blobCall d.sha256Hex w.nowSeconds (w.stores store) call).2 } ∧
      (r = (blobCall d.sha256Hex w.nowSeconds (w.stores store) call).1 ∨
        faults.unacknowledged (.blobs store call) ∧ ∃ e, r = .error e)) := by
  rcases h.outcome (by simp) with ⟨hr, -, rfl⟩ | ⟨uuid, rfl, rfl⟩ | ⟨hr, hfault, rfl⟩
  · exact .inl ⟨rfl, _, (Option.some.inj hr).symm⟩
  · exact .inr ⟨rfl, .inl rfl⟩
  · exact .inr ⟨rfl, .inr ⟨hfault, _, (Option.some.inj hr).symm⟩⟩

/-- The same place: a version id selects nothing in this store. -/
def SamePlace (a b : ObjectRef) : Prop := a.container = b.container ∧ a.key = b.key

instance (a b : ObjectRef) : Decidable (SamePlace a b) := by unfold SamePlace; infer_instance

theorem object_of_store {blobs : InMemoryBlobStore} {change : Option BlobObject}
    (hw : w' = { w with stores := Function.update w.stores store blobs })
    (hblobs : ∀ c k, blobs.objectAt c k = if target.container = c ∧ target.key = k then change
      else (w.stores store).objectAt c k) (s : StoreId) (ref : ObjectRef) :
    w'.object s ref = if s = store ∧ SamePlace target ref then change else w.object s ref := by
  subst hw
  rw [object_update]
  by_cases hs : s = store
  · subst hs
    rw [if_pos rfl, hblobs]
    simp only [true_and, SamePlace]
    rfl
  · simp [hs]

theorem object_of_failed {blobs : InMemoryBlobStore}
    (hw : w' = { w with stores := Function.update w.stores store blobs })
    (hblobs : blobs = w.stores store) (s : StoreId) (ref : ObjectRef) :
    w'.object s ref = w.object s ref := by
  subst hw hblobs
  simp only [Function.update_eq_self]

/-- A removal leaves the objects alone, or it removes the one it was called for. -/
theorem Exec.remove {r : Result Unit} (h : Exec d faults w (.blobs store (.remove target)) r w') :
    ((∀ s ref, w'.object s ref = w.object s ref) ∧ ∃ e, r = .error e) ∨
    ∀ s ref, w'.object s ref = if s = store ∧ SamePlace target ref then none
      else w.object s ref := by
  rcases h.blob_cases with ⟨rfl, hr⟩ | ⟨hw, hr⟩
  · exact .inl ⟨fun _ _ => rfl, hr⟩
  · rcases (w.stores store).remove_cases target with ⟨e, hrem⟩ | ⟨hrem, hobjects⟩
    · refine .inl ⟨object_of_failed hw (by simp only [blobCall, hrem]), ?_⟩
      rcases hr with rfl | ⟨-, hr⟩
      · exact ⟨e, by simp only [blobCall, hrem]⟩
      · exact hr
    · exact .inr (object_of_store hw hobjects)

/-- A put leaves the objects alone, or it stores an object of this moment. -/
theorem Exec.put {r : Result Unit} {data : Bytes} {options : PutOptions}
    (h : Exec d faults w (.blobs store (.put target data options)) r w') :
    ((∀ s ref, w'.object s ref = w.object s ref) ∧ ∃ e, r = .error e) ∨
    ∃ o : BlobObject, o.lastModifiedEpochSeconds = w.nowSeconds ∧
      ∀ s ref, w'.object s ref = if s = store ∧ SamePlace target ref then some o
        else w.object s ref := by
  rcases h.blob_cases with ⟨rfl, hr⟩ | ⟨hw, hr⟩
  · exact .inl ⟨fun _ _ => rfl, hr⟩
  · rcases InMemoryBlobStore.put_cases d.sha256Hex (w.stores store) w.nowSeconds target data options
      with ⟨e, hput⟩ | ⟨o, -, -, -, hnow, hput, hobjects⟩
    · refine .inl ⟨object_of_failed hw (by simp only [blobCall, hput]), ?_⟩
      rcases hr with rfl | ⟨-, hr⟩
      · exact ⟨e, by simp only [blobCall, hput]⟩
      · exact hr
    · exact .inr ⟨o, hnow, object_of_store hw hobjects⟩

/-- A copy leaves the objects alone, or it stores an object of this moment. -/
theorem Exec.copy {r : Result ObjectStat}
    (h : Exec d faults w (.blobs store (.copy source target)) r w') :
    ((∀ s ref, w'.object s ref = w.object s ref) ∧ ∃ e, r = .error e) ∨
    ∃ o : BlobObject, o.lastModifiedEpochSeconds = w.nowSeconds ∧
      ∀ s ref, w'.object s ref = if s = store ∧ SamePlace target ref then some o
        else w.object s ref := by
  rcases h.blob_cases with ⟨rfl, hr⟩ | ⟨hw, hr⟩
  · exact .inl ⟨fun _ _ => rfl, hr⟩
  · rcases (w.stores store).copy_cases w.nowSeconds source target with
      ⟨e, hcopy⟩ | ⟨o, -, hcopy, hobjects⟩
    · refine .inl ⟨object_of_failed hw (by simp only [blobCall, hcopy]), ?_⟩
      rcases hr with rfl | ⟨-, hr⟩
      · exact ⟨e, by simp only [blobCall, hcopy]⟩
      · exact hr
    · exact .inr ⟨_, rfl, object_of_store hw hobjects⟩

end Objects

section Locations
variable {p fs id : String} {location : FileLocation}

theorem Exec.location_cases {call : LocationCall} {r : Result call.Value}
    (h : Exec d faults w (.locations call) r w') :
    (w'.locations = w.locations ∧ ∃ e, r = .error e) ∨
    (w'.locations = (locationCall w.locations call).2 ∧
      (r = (locationCall w.locations call).1 ∨
        faults.unacknowledged (.locations call) ∧ ∃ e, r = .error e)) := by
  rcases h.outcome (by simp) with ⟨hr, -, rfl⟩ | ⟨uuid, rfl, rfl⟩ | ⟨hr, hfault, rfl⟩
  · exact .inl ⟨rfl, _, (Option.some.inj hr).symm⟩
  · exact .inr ⟨rfl, .inl rfl⟩
  · exact .inr ⟨rfl, .inr ⟨hfault, _, (Option.some.inj hr).symm⟩⟩

theorem Exec.findByFileSource_ok
    (h : Exec d faults w (.locations (.findByFileSource p fs)) (.ok location) w') :
    w.locations.byFileSource p fs = some location := by
  rcases h.location_cases with ⟨-, e, hr⟩ | ⟨-, hr | ⟨-, e, hr⟩⟩
  · cases hr
  · exact InMemoryLocationRepository.findByFileSource_eq_ok.mp hr.symm
  · cases hr

/-- A save leaves the locations alone, or it puts the record. -/
theorem Exec.saveLocation {r : Result Unit}
    (h : Exec d faults w (.locations (.save p location)) r w') :
    (w'.locations = w.locations ∧ ∃ e, r = .error e) ∨
    ∃ hfs hfree, w'.locations = w.locations.put p location hfs hfree := by
  rcases h.location_cases with hsame | ⟨hw, hr⟩
  · exact .inl hsame
  · rcases w.locations.save_cases p location with ⟨e, hsave⟩ | ⟨hfs, hfree, hsave⟩
    · refine .inl ⟨by rw [hw]; simp only [locationCall, hsave], ?_⟩
      rcases hr with rfl | ⟨-, hr⟩
      · exact ⟨e, by simp only [locationCall, hsave]⟩
      · exact hr
    · exact .inr ⟨hfs, hfree, by rw [hw]; simp only [locationCall, hsave]⟩

/-- A deletion of a location leaves the locations alone, or the record of the id goes. -/
theorem Exec.deleteLocation {r : Result Unit}
    (h : Exec d faults w (.locations (.delete p id)) r w') :
    (w'.locations = w.locations ∧ ∃ e, r = .error e) ∨
    ∃ old, w.locations.byFileId p id = some old ∧
      (∀ q k, w'.locations.byFileId q k = if p = q ∧ id = k then none
        else w.locations.byFileId q k) ∧
      ∀ q fs, w'.locations.byFileSource q fs = if p = q ∧ old.fileSource = fs then none
        else w.locations.byFileSource q fs := by
  rcases h.location_cases with hsame | ⟨hw, hr⟩
  · exact .inl hsame
  · rcases w.locations.delete_cases p id with ⟨-, e, hdel⟩ | ⟨old, hold, -, hids, hsources⟩
    · refine .inl ⟨by rw [hw]; simp only [locationCall, hdel], ?_⟩
      rcases hr with rfl | ⟨-, hr⟩
      · exact ⟨e, by simp only [locationCall, hdel]⟩
      · exact hr
    · exact .inr ⟨old, hold, fun q k => by rw [hw]; exact hids q k,
        fun q fs => by rw [hw]; exact hsources q fs⟩

end Locations

end World

/-- A destructor that keeps what the body ensures, on whichever way it leaves. -/
theorem Action.Ensures.destructing {S α : Type} {exec : Effects ports S} {P : S → Prop}
    {Q : α → S → Prop} {E : Exit → S → Prop} {x : Action α} {destructor : Action Unit}
    (hx : Action.Ensures exec P x Q E)
    (hQ : ∀ a, Program.Ensures exec (Q a) destructor.run fun _ => Q a)
    (hE : ∀ exit, Program.Ensures exec (E exit) destructor.run fun _ => E exit) :
    Action.Ensures exec P (x.destructing destructor) Q E :=
  Action.Ensures.exitingWith hx
    (fun a => (hQ a).bind fun _ => Program.ensures_pure fun _ hs => hs) fun exit => by
    cases exit with
    | diverged => exact Program.ensures_pure fun _ hs => hs
    | error e => exact (hE _).bind fun _ => Program.ensures_pure fun _ hs => hs
    | exception what => exact (hE _).bind fun _ => Program.ensures_pure fun _ hs => hs

section Reliance
variable {R : Assumption ports} {K : Port → Prop} {α : Type} {Q : α → Prop} {x : Action α}

theorem Action.relies_ask {op : Port} (h : K op) : Action.Relies R K (R op) (Action.ask op) :=
  Interaction.Action.relies_call (I := ports) h

theorem Action.relies_tryResult (r : Result α) :
    Action.Relies R K (fun a => r = .ok a) (Action.tryResult r) := by
  cases r with
  | ok a => exact Interaction.Action.relies_pure rfl
  | error e => exact Interaction.Action.relies_throw

theorem Action.relies_attempt (hx : Action.Relies R K Q x) :
    Action.Relies R K (fun out => ∀ a, out = .ok a → Q a) (Action.attempt x) := by
  apply Interaction.Action.relies_exitingWith hx
  intro out hout b hb a hba
  subst hba
  match out with
  | .ok a' =>
    obtain rfl : a' = a := by simpa using hb
    exact hout a' rfl
  | .error (.error e) => simp at hb
  | .error (.exception what) => simp at hb
  | .error .diverged => simp at hb

theorem Action.relies_destructing {destructor : Action Unit} (hx : Action.Relies R K Q x)
    (hd : Action.Relies R K (fun _ => True) destructor) :
    Action.Relies R K Q (x.destructing destructor) := by
  apply Interaction.Action.relies_exitingWith hx
  intro out hout
  match out with
  | .ok a => exact Program.relies_bind hd fun _ _ => hout
  | .error (.error e) => exact Program.relies_bind hd fun _ _ => nofun
  | .error (.exception what) => exact Program.relies_bind hd fun _ _ => nofun
  | .error .diverged => exact Interaction.Action.relies_throw

end Reliance

end FileService.Domain
