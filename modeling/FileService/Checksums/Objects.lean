import FileService.Checksums.Invariant

/-!
# Objects written and read without failures

A put stores the bytes with their hash, a copy stores the bytes of its source,
and the chunks that are read of an object are its bytes. A copy between zones
therefore writes the bytes of its source, or nothing where another store has no
source object.
-/
namespace FileService.Checksums
open FileService.Common FileService.Domain FileService.Interaction FileService.App
open FileService.Infra

variable {d : Deployment} {omitted : String → String → Prop} {w w' : World} {store : StoreId}
variable {ref source target : ObjectRef}

section Calls

theorem exec_put {r : Result Unit} {data : Bytes} {options : PutOptions}
    (h : World.Exec d .none w (.blobs store (.put target data options)) r w') :
    (World.SameData w w' ∧ ∃ e, r = .error e) ∨ ∃ o, o.data = data ∧ Hashed d o ∧
      ∀ s ref, w'.object s ref = if s = store ∧ World.SamePlace target ref then some o
        else w.object s ref := by
  obtain ⟨uuid, -, hr, hw⟩ := World.exec_none h
  rcases InMemoryBlobStore.put_cases d.sha256Hex (w.stores store) w.nowSeconds target data options
    with ⟨e, hput⟩ | ⟨o, hdata, hsum, halgorithm, -, -, hobjects⟩
  · refine .inl ⟨⟨by rw [hw]; rfl, by rw [hw]; rfl, by rw [hw]; rfl, ?_⟩, e, ?_⟩
    · exact World.object_of_failed hw (by simp only [World.blobCall, hput])
    · rw [hr]
      simp only [World.apply, World.blobCall, hput]
  · exact .inr ⟨o, hdata, ⟨by rw [hdata]; exact hsum, halgorithm⟩,
      World.object_of_store hw hobjects⟩

theorem exec_copy {r : Result ObjectStat}
    (h : World.Exec d .none w (.blobs store (.copy source target)) r w') :
    (World.SameData w w' ∧ ∃ e, r = .error e) ∨
    ∃ o o', w.object store source = some o ∧ o'.data = o.data ∧ o'.checksum = o.checksum ∧
      o'.checksumAlgorithm = o.checksumAlgorithm ∧ r = .ok (InMemoryBlobStore.statOf o') ∧
      ∀ s ref, w'.object s ref = if s = store ∧ World.SamePlace target ref then some o'
        else w.object s ref := by
  obtain ⟨uuid, -, hr, hw⟩ := World.exec_none h
  rcases (w.stores store).copy_cases w.nowSeconds source target with
    ⟨e, hcopy⟩ | ⟨o, ho, hcopy, hobjects⟩
  · refine .inl ⟨⟨by rw [hw]; rfl, by rw [hw]; rfl, by rw [hw]; rfl, ?_⟩, e, ?_⟩
    · exact World.object_of_failed hw (by simp only [World.blobCall, hcopy])
    · rw [hr]
      simp only [World.apply, World.blobCall, hcopy]
  · exact .inr ⟨o, { o with lastModifiedEpochSeconds := w.nowSeconds }, ho, rfl, rfl, rfl,
      hr.trans hcopy, World.object_of_store hw hobjects⟩

theorem exec_stat {st : ObjectStat}
    (h : World.Exec d .none w (.blobs store (.stat ref)) (.ok st) w') :
    st = ((w.object store ref).map InMemoryBlobStore.statOf).getD {} := by
  obtain ⟨uuid, -, hr, -⟩ := World.exec_none h
  exact InMemoryBlobStore.stat_eq_ok hr.symm

theorem exec_get {range : ByteRange} {data : Bytes}
    (h : World.Exec d .none w (.blobs store (.get ref range)) (.ok data) w') :
    ∃ o, w.object store ref = some o ∧ data = if range.length = 0 then o.data.drop range.offset
      else (o.data.drop range.offset).take range.length := by
  obtain ⟨uuid, -, hr, -⟩ := World.exec_none h
  exact InMemoryBlobStore.get_eq_ok hr.symm

theorem exec_forPartition {p : String} {zone : StorageZone}
    (h : World.Exec d .none w (.forPartition p zone) (.ok store) w') :
    store = d.store p zone := by
  obtain ⟨uuid, -, hr, -⟩ := World.exec_none h
  exact Except.ok.inj hr

end Calls

theorem stable_object {o : Option BlobObject} : Stable fun w => w.object store ref = o :=
  fun _ _ hsame h => (hsame.object store ref).trans h

section Replies
variable {P : World → Prop} {E : Exit → World → Prop}

theorem ensures_forPartition (hP : Stable P) {p : String} {zone : StorageZone} :
    Action.Ensures (served d) P (Action.ask (.forPartition p zone))
      (fun r w => (∀ found, r = .ok found → found = d.store p zone) ∧ P w) E :=
  ensures_quiet hP (fun _ _ _ _ h => h) trivial fun _ _ _ _ hexec _ hr => by
    subst hr
    exact exec_forPartition hexec

theorem ensures_findByFileSource (hP : Stable P) {p fs : String} :
    Action.Ensures (served d) P (Action.ask (.locations (.findByFileSource p fs)))
      (fun r w => (∀ l, r = .ok l → w.locations.byFileSource p fs = some l) ∧ P w) E :=
  ensures_quiet hP (fun _ w w' hsame h l hl => by rw [hsame.locations]; exact h l hl) trivial
    fun _ _ _ _ hexec _ hr => by
      subst hr
      exact hexec.findByFileSource_ok

theorem ensures_containerFor (hP : Stable P) {p : String} {zone : StorageZone} :
    Action.Ensures (served d) P (containerFor p zone) (fun r w => (∀ container, r = .ok container →
      containerOf p zone (World.partitionConfig d.registry p) = .ok container) ∧ P w) E := by
  have hask : Action.Ensures (served d) P (Action.ask (.partitionConfig p))
      (fun config w => config = World.partitionConfig d.registry p ∧ P w) E := by
    refine ensures_quiet hP (fun _ _ _ _ h => h) trivial fun w r w' _ hexec => ?_
    obtain ⟨uuid, -, hr, -⟩ := World.exec_none hexec
    exact hr
  exact hask.bind fun config =>
    Action.ensures_pure fun w hw => ⟨fun container hr => hw.1 ▸ hr, hw.2⟩

theorem ensures_objectRef {location : FileLocation} (hE : ∀ exit w, P w → E exit w) :
    Action.Ensures (served d) P (objectRefFromLocation location)
      (fun ref w => physicalRef location = .ref ref ∧ P w) E := by
  unfold objectRefFromLocation
  split
  · rename_i ref href
    exact Action.ensures_pure fun w hw => ⟨href, hw⟩
  · exact Action.ensures_throw fun w hw => hE _ w hw
  · exact Action.ensures_throw fun w hw => hE _ w hw

theorem ensures_ensureContainer (hP : Stable P) {container : String} :
    Action.Ensures (served d) P (Action.ask (.blobs store (.ensureContainer container)))
      (fun r w => (∀ u, r = .ok u → True) ∧ P w) E :=
  ensures_quiet hP (fun _ _ _ _ h => h) trivial fun _ _ _ _ _ _ _ => trivial

theorem ensures_stat (hP : Stable P) :
    Action.Ensures (served d) P (Action.ask (.blobs store (.stat ref)))
      (fun r w => (∀ st, r = .ok st →
        st = ((w.object store ref).map InMemoryBlobStore.statOf).getD {}) ∧ P w) E :=
  ensures_quiet hP (fun _ w w' hsame h st hst => by rw [hsame.object]; exact h st hst) trivial
    fun _ _ _ _ hexec _ hr => by
      subst hr
      exact exec_stat hexec

theorem ensures_get (hP : Stable P) {range : ByteRange} :
    Action.Ensures (served d) P (Action.ask (.blobs store (.get ref range)))
      (fun r w => (∀ data, r = .ok data → ∃ o, w.object store ref = some o ∧
        data = if range.length = 0 then o.data.drop range.offset
          else (o.data.drop range.offset).take range.length) ∧ P w) E :=
  ensures_quiet hP (fun _ w w' hsame h data hdata => by rw [hsame.object]; exact h data hdata)
    trivial fun _ _ _ _ hexec _ hr => by
      subst hr
      exact exec_get hexec

end Replies

section ReadAll
variable {P : World → Prop} {E : Exit → World → Prop}

/-- Chunk by chunk, the bytes of the object: `data` holds those before `offset`. -/
theorem ensures_readAll (hP : Stable P) {o : BlobObject}
    (hobject : ∀ w, P w → w.object store ref = some o) (rounds offset : Nat) {data : Bytes}
    (hdata : data = o.data.take offset) (hrounds : o.data.length < offset + rounds) :
    Action.Ensures (served d) P (readAll store ref o.data.length rounds offset data)
      (fun out w => out = o.data ∧ P w) fun _ => P := by
  induction rounds generalizing offset data with
  | zero =>
    have hdone : data = o.data := by rw [hdata, List.take_of_length_le (by omega)]
    exact Action.ensures_pure fun w hw => ⟨hdone, hw⟩
  | succ rounds ih =>
    unfold readAll
    split
    · rename_i hend
      have hdone : data = o.data := by rw [hdata, List.take_of_length_le hend]
      exact Action.ensures_pure fun w hw => ⟨hdone, hw⟩
    · rename_i hmore
      let wanted := min readChunkBytes (o.data.length - offset)
      have hwanted : 0 < wanted := by
        simp only [wanted, readChunkBytes]
        omega
      refine ensures_try (ensures_get hP) (fun chunk => ?_) fun _ _ hw => hw
      refine .mono (P := fun w => chunk = (o.data.drop offset).take wanted ∧ P w) ?_ ?_
        (fun _ _ hw => hw) fun _ _ hw => hw
      · split
        · exact Action.ensures_throw fun w hw => hw.2
        · split
          · rename_i hempty
            refine .of_fact (F := False) (fun w hw => ?_) False.elim
            rw [List.isEmpty_iff.mp hempty] at hw
            have hlength := congrArg List.length hw.1
            simp only [List.length_nil, List.length_take, List.length_drop] at hlength
            omega
          · refine .of_fact (fun w hw => hw.1) fun hchunk => ?_
            have hlength : chunk.length = wanted := by
              rw [hchunk, List.length_take, List.length_drop]
              simp only [wanted]
              omega
            refine .mono (ih (offset + chunk.length) ?_ (by omega)) (fun w hw => hw.2)
              (fun _ _ hw => hw) fun _ _ hw => hw
            rw [hdata, hlength, List.take_add, ← hchunk]
      · rintro w ⟨⟨o', ho', hchunk⟩, hw⟩
        obtain rfl := Option.some.inj ((hobject w hw).symm.trans ho')
        exact ⟨hchunk.trans (if_neg hwanted.ne'), hw⟩

end ReadAll

section Writes

/-- Every ready record of the place attests the bytes. -/
def Admits (d : Deployment) (w : World) (store : StoreId) (target : ObjectRef) (data : Bytes) :
    Prop :=
  ∀ q s v ref, w.metadata.row q s = some v → v.state = .ready → Settled d w q s ref →
    d.store q .persistent = store → World.SamePlace target ref → Attests d v.record data

theorem Admits.congr {data : Bytes} (h : Admits d w store target data)
    (hmetadata : w'.metadata = w.metadata) (hlocations : w'.locations = w.locations) :
    Admits d w' store target data := by
  intro q s v ref hv hstate hsettled
  rw [hmetadata] at hv
  exact h q s v ref hv hstate (by simpa only [Settled, hlocations] using hsettled)

/-- The bytes a copy puts at its target: an object that another store lacks counts as empty. -/
def Copied (w : World) (fromStore toStore : StoreId) (source : ObjectRef) (data : Bytes) : Prop :=
  match w.object fromStore source with
  | some o => data = o.data
  | none => fromStore ≠ toStore ∧ data = []

/-- A copy that the ready records of its target admit. -/
def CopyAdmitted (d : Deployment) (w : World) (fromStore toStore : StoreId)
    (source target : ObjectRef) : Prop :=
  ∀ data, Copied w fromStore toStore source data → Admits d w toStore target data

theorem stable_copyAdmitted {fromStore toStore : StoreId} :
    Stable fun w => CopyAdmitted d w fromStore toStore source target := by
  intro w w' hsame h data hdata
  rw [Copied, hsame.object] at hdata
  exact (h data hdata).congr hsame.metadata hsame.locations

variable {G : InMemoryMetadataRepository → InMemoryLocationRepository → Prop}

/-- The invariant, with a property of the records and the locations. -/
def SoundWith (d : Deployment) (omitted : String → String → Prop)
    (G : InMemoryMetadataRepository → InMemoryLocationRepository → Prop) (w : World) : Prop :=
  Sound d omitted w ∧ G w.metadata w.locations

theorem stable_soundWith : Stable (SoundWith d omitted G) := fun w w' hsame h =>
  ⟨stable_sound w w' hsame h.1, by
    rw [hsame.metadata, hsame.locations]
    exact h.2⟩

/-- An object written at a place whose ready records attest it. -/
theorem SoundWith.write (h : SoundWith d omitted G w) {o : BlobObject} (hhashed : Hashed d o)
    (hadmits : Admits d w store target o.data) (hmetadata : w'.metadata = w.metadata)
    (hlocations : w'.locations = w.locations) (hobject : ∀ s ref, w'.object s ref =
      if s = store ∧ World.SamePlace target ref then some o else w.object s ref) :
    SoundWith d omitted G w' ∧ w'.object store target = some o := by
  refine ⟨⟨h.1.of_object hmetadata hlocations hobject (fun o' ho' => ?_) ?_, ?_⟩, ?_⟩
  · cases ho'
    exact hhashed
  · intro q s v ref hv hstate hsettled hstore hplace o' ho' _
    cases ho'
    exact hadmits q s v ref hv hstate hsettled hstore hplace
  · rw [hmetadata, hlocations]
    exact h.2
  · rw [hobject, if_pos ⟨rfl, rfl, rfl⟩]

/-- What a write of an object leaves: the invariant, and the object that its stat describes. -/
def Wrote (d : Deployment) (omitted : String → String → Prop)
    (G : InMemoryMetadataRepository → InMemoryLocationRepository → Prop) (store : StoreId)
    (target : ObjectRef) (st : ObjectStat) (w : World) : Prop :=
  SoundWith d omitted G w ∧
    ∃ o, w.object store target = some o ∧ st = InMemoryBlobStore.statOf o

theorem stable_wrote {st : ObjectStat} : Stable (Wrote d omitted G store target st) := by
  rintro w w' hsame ⟨h, o, ho, hst⟩
  exact ⟨stable_soundWith w w' hsame h, o, (hsame.object store target).trans ho, hst⟩

/-- A put of bytes that the ready records of the place attest. -/
theorem ensures_put {data : Bytes} {options : PutOptions} {E : Exit → World → Prop} :
    Action.Ensures (served d) (fun w => SoundWith d omitted G w ∧ Admits d w store target data)
      (Action.ask (.blobs store (.put target data options)))
      (fun r w => SoundWith d omitted G w ∧
        (r = .ok () → ∃ o, w.object store target = some o)) E := by
  have hstable : Stable fun w => SoundWith d omitted G w ∧ Admits d w store target data :=
    stable_soundWith.and fun w w' hsame h => h.congr hsame.metadata hsame.locations
  refine ensures_ask hstable fun w r w' ⟨hsound, hadmits⟩ hexec => ?_
  obtain ⟨hmetadata, -, hlocations⟩ := hexec.blobs_frame
  rcases exec_put hexec with ⟨hsame, e, rfl⟩ | ⟨o, rfl, hhashed, hobject⟩
  · exact ⟨stable_soundWith w w' hsame hsound, by simp⟩
  · obtain ⟨hsound', ho⟩ := hsound.write hhashed hadmits hmetadata hlocations hobject
    exact ⟨hsound', fun _ => ⟨o, ho⟩⟩

/-- The same, then the stat of the object. -/
theorem ensures_put_stat {data : Bytes} {options : PutOptions} :
    Action.Ensures (served d) (fun w => SoundWith d omitted G w ∧ Admits d w store target data)
      (do
        Action.tryResult (← Action.ask (.blobs store (.put target data options)))
        Action.tryResult (← Action.ask (.blobs store (.stat target))))
      (Wrote d omitted G store target) fun _ => SoundWith d omitted G := by
  refine .bind ensures_put fun r => .bind (Q := fun _ w => SoundWith d omitted G w ∧
    ∃ o, w.object store target = some o) ?_ fun _ => ?_
  · exact ensures_tryResult (fun _ _ hr hw => ⟨hw.1, hw.2 hr⟩) fun _ _ _ hw => hw.1
  · have hstable : Stable fun w => SoundWith d omitted G w ∧ ∃ o, w.object store target = some o :=
      stable_soundWith.and fun w w' hsame ⟨o, ho⟩ => ⟨o, (hsame.object store target).trans ho⟩
    refine (ensures_stat hstable).bind fun r =>
      ensures_tryResult (fun st w hst hw => ?_) fun _ _ _ hw => hw.2.1
    obtain ⟨hstat, hsound, o, ho⟩ := hw
    have hst := hstat st hst
    rw [ho] at hst
    exact ⟨hsound, o, ho, hst⟩

/-- A copy within a store that the ready records of the target admit. -/
theorem ensures_copy :
    Action.Ensures (served d)
      (fun w => SoundWith d omitted G w ∧ CopyAdmitted d w store store source target)
      (do Action.tryResult (← Action.ask (.blobs store (.copy source target))))
      (Wrote d omitted G store target) fun _ => SoundWith d omitted G := by
  refine .bind (Q := fun r w => SoundWith d omitted G w ∧
    ∀ st, r = .ok st → Wrote d omitted G store target st w) ?_ fun r =>
      ensures_tryResult (fun st w hst hw => hw.2 st hst) fun _ _ _ hw => hw.1
  refine ensures_ask (stable_soundWith.and stable_copyAdmitted) fun w r w' ⟨hsound, hadmitted⟩ hexec => ?_
  obtain ⟨hmetadata, -, hlocations⟩ := hexec.blobs_frame
  rcases exec_copy hexec with ⟨hsame, e, rfl⟩ | ⟨o, o', ho, hdata, hsum, halgorithm, rfl, hobject⟩
  · exact ⟨stable_soundWith w w' hsame hsound, by simp⟩
  · have hcopied : Copied w store store source o'.data := by
      simp only [Copied, ho]
      exact hdata
    have hhashed : Hashed d o' := by
      obtain ⟨h₁, h₂⟩ := hsound.1.hashed ho
      exact ⟨by rw [hsum, hdata, h₁], by rw [halgorithm, h₂]⟩
    obtain ⟨hsound', ho'⟩ := hsound.write hhashed (hadmitted _ hcopied) hmetadata hlocations hobject
    exact ⟨hsound', fun st hst => ⟨hsound', o', ho', (Except.ok.inj hst).symm⟩⟩

/-- A copy between zones that the ready records of the target admit. -/
theorem ensures_copyBetweenZones {p : String} {sourceZone targetZone : StorageZone} :
    Action.Ensures (served d)
      (fun w => SoundWith d omitted G w ∧
        CopyAdmitted d w (d.store p sourceZone) (d.store p targetZone) source target)
      (copyBetweenZones p source target sourceZone targetZone)
      (Wrote d omitted G (d.store p targetZone) target) fun _ => SoundWith d omitted G := by
  let P : World → Prop := fun w => SoundWith d omitted G w ∧
    CopyAdmitted d w (d.store p sourceZone) (d.store p targetZone) source target
  have hP : Stable P := stable_soundWith.and stable_copyAdmitted
  unfold copyBetweenZones
  refine ensures_try (ensures_forPartition hP) (fun fromStore => .of_fact (fun _ hw => hw.1)
    fun hfrom => .mono (P := P) ?_ (fun _ hw => hw.2) (fun _ _ hw => hw) fun _ _ hw => hw)
    fun _ _ hw => hw.1
  subst hfrom
  refine ensures_try (ensures_forPartition hP) (fun toStore => .of_fact (fun _ hw => hw.1)
    fun hto => .mono (P := P) ?_ (fun _ hw => hw.2) (fun _ _ hw => hw) fun _ _ hw => hw)
    fun _ _ hw => hw.1
  subst hto
  refine ensures_try (ensures_ensureContainer hP) (fun _ => .mono (P := P) ?_ (fun _ hw => hw.2)
    (fun _ _ hw => hw) fun _ _ hw => hw) fun _ _ hw => hw.1
  split
  · rename_i hsame
    refine ensures_copy.mono (fun w hw => ⟨hw.1, ?_⟩) (fun _ _ hw => hw) fun _ _ hw => hw
    have hadmitted := hw.2
    rwa [hsame] at hadmitted
  · rename_i hdiffer
    refine ensures_try (ensures_stat hP) (fun st => ?_) fun _ _ hw => hw.1
    -- the bytes that are read are those of the source, or none if it is missing
    refine .bind (Q := fun data w => Copied w (d.store p sourceZone) (d.store p targetZone) source
      data ∧ P w) ?_ fun data => ensures_put_stat.mono (fun w hw => ⟨hw.2.1, hw.2.2 data hw.1⟩)
        (fun _ _ hw => hw) fun _ _ hw => hw
    refine .mono (P := fun w => ∃ o, w.object (d.store p sourceZone) source = o ∧
      st = (o.map InMemoryBlobStore.statOf).getD {} ∧ P w) (.of_exists fun o => ?_)
      (fun w hw => ⟨_, rfl, hw.1, hw.2⟩) (fun _ _ hw => hw) fun _ _ hw => hw
    refine .of_fact (fun w hw => hw.2.1) fun hst => ?_
    cases o with
    | none =>
      subst hst
      refine Action.ensures_pure fun w hw => ⟨?_, hw.2.2⟩
      simp only [Copied, hw.1]
      exact ⟨hdiffer, trivial⟩
    | some o =>
      have hsize : st.size.toNat = o.data.length := by
        rw [hst]
        exact Int.toNat_natCast _
      rw [hsize]
      refine (ensures_readAll (P := fun w => w.object (d.store p sourceZone) source = some o ∧ P w)
        (stable_object.and hP) (fun w hw => hw.1) _ 0 (by simp) (by omega)).mono
        (fun w hw => ⟨hw.1, hw.2.2⟩) (fun data w hw => ⟨?_, hw.2.2⟩) fun _ _ hw => hw.2.1
      simp only [Copied, hw.2.1]
      exact hw.1

end Writes

section Admission
variable {p fs : String} {location : FileLocation}

/-- No version of the file source is ready. -/
def Unready (metadata : InMemoryMetadataRepository) (p fs : String) : Prop :=
  ∀ v, metadata.row p fs = some v → v.state ≠ .ready

/-- The key of a location record whose file source is not ready belongs to no ready record. -/
theorem Sound.admits (h : Sound d omitted w) (hl : w.locations.byFileSource p fs = some location)
    (href : physicalRef location = .ref source) (hkey : target.key = source.key)
    (hhouses : Houses d p store target.container) (hunready : Unready w.metadata p fs)
    (data : Bytes) : Admits d w store target data := by
  rintro q s v ref hv hstate ⟨location', hl', -, href', hcontainer⟩ hstore ⟨hsame, hsamekey⟩
  have hshared : p ≠ q → Shares d p q := fun _ =>
    ⟨store, target.container, hhouses, hstore ▸ hsame ▸ houses_persistent hcontainer⟩
  obtain ⟨rfl, rfl, -⟩ := h.same_location hl hl' href href' (hkey.symm.trans hsamekey) hshared
  exact absurd hstate (hunready v hv)

end Admission

end FileService.Checksums
