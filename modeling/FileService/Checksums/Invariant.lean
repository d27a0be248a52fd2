import FileService.App.Copies
import FileService.Checksums.Service

/-!
# The invariant of registered checksums

An object carries the hash of its bytes. A location record names a place that
its file id determines, and a file id is used once among the partitions that
share a container. So a place belongs to one location record, and a ready record
attests the bytes of the object at the place of its own.
-/
namespace FileService.Checksums
open FileService.Common FileService.Domain FileService.Interaction FileService.App
open FileService.Infra

/-- A container of the partition, by its configuration or by the default name. -/
def Houses (d : Deployment) (p : String) (store : StoreId) (container : String) : Prop :=
  ∃ zone, store = d.store p zone ∧
    (containerOf p zone (World.partitionConfig d.registry p) = .ok container ∨
      defaultContainer p zone = .ok container)

/-- Two partitions with a container of one store in common. -/
def Shares (d : Deployment) (p q : String) : Prop :=
  ∃ store container, Houses d p store container ∧ Houses d q store container

/-- The location record names a key that ends with its file id, in a container of the partition. -/
def Placed (d : Deployment) (p : String) (location : FileLocation) : Prop :=
  ∃ container parts, physicalRef location = .ref { container, key := makePosixKey parts } ∧
    Houses d p (d.store p location.zone) container ∧ parts.fileId = location.fileId ∧
    isSafeSegment parts.fileId = true

/-- The members of the record that hold a checksum hold the hash of these bytes. -/
def Attests (d : Deployment) (record : FileMetadataRecord) (data : Bytes) : Prop :=
  record.data.checksum = some (d.sha256Hex data) ∧
  record.data.checksumAlgorithm = some "SHA256" ∧
  record.data.datasetProperties.fileSourceInfo.checksum = some (d.sha256Hex data) ∧
  record.data.datasetProperties.fileSourceInfo.checksumAlgorithm = some "SHA256"

/-- The object of a registered file source, as its migrated location record names it. -/
def Settled (d : Deployment) (w : World) (p fs : String) (ref : ObjectRef) : Prop :=
  ∃ location, w.locations.byFileSource p fs = some location ∧ location.zone = .persistent ∧
    physicalRef location = .ref ref ∧
    containerOf p .persistent (World.partitionConfig d.registry p) = .ok ref.container

/-- A ready record attests the object of its file source, as long as there is one. -/
def Truthful (d : Deployment) (w : World) (p fs : String) : Prop :=
  ∀ v, w.metadata.row p fs = some v → v.state = .ready →
    ∃ ref, Settled d w p fs ref ∧
      ∀ o, w.object (d.store p .persistent) ref = some o → Attests d v.record o.data

/-- An object as a put stores it. -/
def Hashed (d : Deployment) (o : BlobObject) : Prop :=
  o.checksum = d.sha256Hex o.data ∧ o.checksumAlgorithm = "SHA256"

/-- The invariant, but for the records of some file sources. -/
structure Sound (d : Deployment) (omitted : String → String → Prop) (w : World) : Prop where
  hashed : ∀ {store ref o}, w.object store ref = some o → Hashed d o
  placed : ∀ {p id location}, w.locations.byFileId p id = some location → Placed d p location
  distinct : ∀ {p q id location location'}, w.locations.byFileId p id = some location →
    w.locations.byFileId q id = some location' → p ≠ q → ¬Shares d p q
  truthful : ∀ p fs, ¬omitted p fs → Truthful d w p fs

section Keys

/-- The file id is the part of a key after its last slash. -/
theorem fileId_of_key {parts : SourcePath} (h : '/' ∉ parts.fileId.toList) :
    (makePosixKey parts).toList.reverse.takeWhile (· ≠ '/') = parts.fileId.toList.reverse := by
  have hkey : (makePosixKey parts).toList.reverse = parts.fileId.toList.reverse ++ '/' ::
      (parts.userId ++ "/" ++ toString parts.epochMillis ++ "-" ++
        parts.timestamp).toList.reverse := by
    simp [makePosixKey]
  have hall : ∀ c ∈ parts.fileId.toList.reverse, (decide (c ≠ '/')) = true := by
    intro c hc
    simp only [decide_eq_true_eq]
    rintro rfl
    exact h (List.mem_reverse.mp hc)
  rw [hkey, List.takeWhile_append_of_pos hall]
  simp

theorem slash_notMem {segment : String} (h : isSafeSegment segment = true) :
    '/' ∉ segment.toList := by
  intro hmem
  simp only [isSafeSegment, Bool.and_eq_true, List.all_eq_true] at h
  have hslash := h.2 '/' hmem
  revert hslash
  decide

theorem key_injective {parts parts' : SourcePath} (h : isSafeSegment parts.fileId = true)
    (h' : isSafeSegment parts'.fileId = true) (hkey : makePosixKey parts = makePosixKey parts') :
    parts.fileId = parts'.fileId := by
  have hids := fileId_of_key (slash_notMem h)
  rw [hkey, fileId_of_key (slash_notMem h')] at hids
  exact String.toList_inj.mp (List.reverse_injective hids).symm

end Keys

variable {d : Deployment} {omitted : String → String → Prop} {w w' : World}
variable {p q fs s : String} {store : StoreId}

theorem Placed.fileId_ne {location : FileLocation} (h : Placed d p location) :
    location.fileId ≠ "" := by
  obtain ⟨container, parts, -, -, hid, hsafe⟩ := h
  rw [← hid]
  rintro hempty
  simp [isSafeSegment, hempty] at hsafe

/-- A place belongs to one location record. -/
theorem Sound.same_location (h : Sound d omitted w) {location location' : FileLocation}
    {ref ref' : ObjectRef} (hl : w.locations.byFileSource p fs = some location)
    (hl' : w.locations.byFileSource q s = some location') (href : physicalRef location = .ref ref)
    (href' : physicalRef location' = .ref ref') (hkey : ref.key = ref'.key)
    (hshared : p ≠ q → Shares d p q) : p = q ∧ fs = s ∧ location = location' := by
  obtain ⟨hid, hfs⟩ := InMemoryLocationRepository.byFileSource_eq_some.mp hl
  obtain ⟨hid', hs⟩ := InMemoryLocationRepository.byFileSource_eq_some.mp hl'
  obtain ⟨container, parts, hparts, -, hfile, hsafe⟩ := h.placed hid
  obtain ⟨container', parts', hparts', -, hfile', hsafe'⟩ := h.placed hid'
  obtain rfl : ref = _ := by simpa using href.symm.trans hparts
  obtain rfl : ref' = _ := by simpa using href'.symm.trans hparts'
  have hsame : location.fileId = location'.fileId := by
    rw [← hfile, ← hfile']
    exact key_injective hsafe hsafe' hkey
  obtain rfl : p = q := by
    by_contra hne
    rw [hsame] at hid
    exact h.distinct hid hid' hne (hshared hne)
  rw [hsame, hid'] at hid
  cases hid
  exact ⟨rfl, hfs.symm.trans hs, rfl⟩

theorem houses_persistent {container : String}
    (h : containerOf p .persistent (World.partitionConfig d.registry p) = .ok container) :
    Houses d p (d.store p .persistent) container :=
  ⟨.persistent, rfl, .inl h⟩

section Steps

theorem Truthful.congr (h : Truthful d w p fs) (hrow : w'.metadata = w.metadata)
    (hlocations : w'.locations = w.locations)
    (hobject : ∀ store ref o, w'.object store ref = some o →
      ∃ o', w.object store ref = some o' ∧ o'.data = o.data) : Truthful d w' p fs := by
  intro v hv hstate
  rw [hrow] at hv
  obtain ⟨ref, ⟨location, hlocation, hzone, href, hcontainer⟩, hattests⟩ := h v hv hstate
  refine ⟨ref, ⟨location, by rwa [hlocations], hzone, href, hcontainer⟩, fun o ho => ?_⟩
  obtain ⟨o', ho', hdata⟩ := hobject _ _ _ ho
  rw [← hdata]
  exact hattests o' ho'

theorem stable_truthful : Stable fun w => Truthful d w p fs := fun _ _ hsame h =>
  h.congr hsame.metadata hsame.locations fun store ref o ho =>
    ⟨o, by rwa [← hsame.object], rfl⟩

theorem stable_sound : Stable (Sound d omitted) := fun w w' hsame h =>
  { hashed := fun {store ref o} ho => h.hashed (by rwa [← hsame.object store ref])
    placed := fun {p id location} hl => h.placed (by rwa [← hsame.locations])
    distinct := fun {p q id l l'} hl hl' =>
      h.distinct (by rwa [← hsame.locations]) (by rwa [← hsame.locations])
    truthful := fun p fs hp => stable_truthful w w' hsame (h.truthful p fs hp) }

/-- Fewer file sources are omitted. -/
theorem Sound.of_truthful {omitted' : String → String → Prop} (h : Sound d omitted w)
    (htruthful : ∀ p fs, ¬omitted' p fs → omitted p fs → Truthful d w p fs) :
    Sound d omitted' w where
  hashed := h.hashed
  placed := h.placed
  distinct := h.distinct
  truthful p fs hp := by
    by_cases homitted : omitted p fs
    · exact htruthful p fs hp homitted
    · exact h.truthful p fs homitted

/-- The rows change, and no row becomes ready but those of omitted file sources. -/
theorem Sound.of_rows (h : Sound d omitted w) (hlocations : w'.locations = w.locations)
    (hstores : w'.stores = w.stores)
    (hrows : ∀ p fs v, ¬omitted p fs → w'.metadata.row p fs = some v → v.state = .ready →
      w.metadata.row p fs = some v) : Sound d omitted w' where
  hashed ho := h.hashed (by rwa [World.object_of_stores hstores] at ho)
  placed hl := h.placed (by rwa [hlocations] at hl)
  distinct hl hl' := h.distinct (by rwa [hlocations] at hl) (by rwa [hlocations] at hl')
  truthful p fs hp v hv hstate := by
    obtain ⟨ref, hsettled, hattests⟩ := h.truthful p fs hp v (hrows p fs v hp hv hstate) hstate
    refine ⟨ref, ?_, fun o ho => hattests o (by rwa [World.object_of_stores hstores] at ho)⟩
    simpa only [Settled, hlocations] using hsettled

/-- One object changes, and it becomes one that the ready records of its place attest. -/
theorem Sound.of_object (h : Sound d omitted w) (hmetadata : w'.metadata = w.metadata)
    (hlocations : w'.locations = w.locations) {target : ObjectRef} {change : Option BlobObject}
    (hobject : ∀ s ref, w'.object s ref =
      if s = store ∧ World.SamePlace target ref then change else w.object s ref)
    (hhashed : ∀ o, change = some o → Hashed d o)
    (hattests : ∀ q s v ref, w.metadata.row q s = some v → v.state = .ready →
      Settled d w q s ref → d.store q .persistent = store → World.SamePlace target ref →
      ∀ o, change = some o →
        (∀ o', w.object store ref = some o' → Attests d v.record o'.data) →
        Attests d v.record o.data) : Sound d omitted w' where
  hashed {s ref o} ho := by
    rw [hobject] at ho
    split_ifs at ho
    · exact hhashed o ho
    · exact h.hashed ho
  placed hl := h.placed (by rwa [hlocations] at hl)
  distinct hl hl' := h.distinct (by rwa [hlocations] at hl) (by rwa [hlocations] at hl')
  truthful q s hq v hv hstate := by
    rw [hmetadata] at hv
    obtain ⟨ref, hsettled, hold⟩ := h.truthful q s hq v hv hstate
    refine ⟨ref, by simpa only [Settled, hlocations] using hsettled, fun o ho => ?_⟩
    rw [hobject] at ho
    split_ifs at ho with hplace
    · exact hattests q s v ref hv hstate hsettled hplace.1 hplace.2 o ho
        (hplace.1 ▸ hold)
    · exact hold o ho

/-- A removal keeps the invariant. -/
theorem Sound.of_removal (h : Sound d omitted w) (hmetadata : w'.metadata = w.metadata)
    (hlocations : w'.locations = w.locations) {target : ObjectRef}
    (hobject : ∀ s ref, w'.object s ref =
      if s = store ∧ World.SamePlace target ref then none else w.object s ref) :
    Sound d omitted w' :=
  h.of_object hmetadata hlocations hobject (fun o ho => by cases ho)
    fun _ _ _ _ _ _ _ _ _ o ho => by cases ho

/-- One more omitted file source. -/
def also (omitted : String → String → Prop) (p fs : String) : String → String → Prop :=
  fun q s => omitted q s ∨ q = p ∧ s = fs

theorem not_also (h : ¬also omitted p fs q s) : ¬omitted q s ∧ ¬(p = q ∧ fs = s) :=
  ⟨fun homitted => h (.inl homitted), fun ⟨hq, hs⟩ => h (.inr ⟨hq.symm, hs.symm⟩)⟩

/-- A location record is stored under a file id that is new or keeps its file source. -/
theorem Sound.of_put (h : Sound d omitted w) (hmetadata : w'.metadata = w.metadata)
    (hstores : w'.stores = w.stores) {location : FileLocation} {hfs hfree}
    (hput : w'.locations = w.locations.put p location hfs hfree) (hplaced : Placed d p location)
    (hdistinct : ∀ q l, w.locations.byFileId q location.fileId = some l → p ≠ q → ¬Shares d p q)
    (hold : ∀ old, w.locations.byFileId p location.fileId = some old →
      old.fileSource = location.fileSource) :
    Sound d (also omitted p location.fileSource) w' where
  hashed ho := h.hashed (by rwa [World.object_of_stores hstores] at ho)
  placed {q id l} hl := by
    rw [hput, InMemoryLocationRepository.byFileId_put] at hl
    split_ifs at hl with hnew
    · cases hl
      exact hnew.1 ▸ hplaced
    · exact h.placed hl
  distinct {q₁ q₂ id l l'} hl hl' hne hshares := by
    rw [hput, InMemoryLocationRepository.byFileId_put] at hl hl'
    split_ifs at hl hl' with hnew hnew' hnew'
    · exact hne (hnew.1.symm.trans hnew'.1)
    · obtain ⟨rfl, rfl⟩ := hnew
      exact hdistinct q₂ l' hl' hne hshares
    · obtain ⟨rfl, rfl⟩ := hnew'
      obtain ⟨store, container, h₁, h₂⟩ := hshares
      exact hdistinct q₁ l hl hne.symm ⟨store, container, h₂, h₁⟩
    · exact h.distinct hl hl' hne hshares
  truthful q s hq v hv hstate := by
    obtain ⟨homitted, hother⟩ := not_also hq
    rw [hmetadata] at hv
    obtain ⟨ref, ⟨l, hl, hzone, href, hcontainer⟩, hattests⟩ := h.truthful q s homitted v hv hstate
    refine ⟨ref, ⟨l, ?_, hzone, href, hcontainer⟩,
      fun o ho => hattests o (by rwa [World.object_of_stores hstores] at ho)⟩
    rw [hput, InMemoryLocationRepository.byFileSource_put, if_neg hother, if_neg]
    · exact hl
    · rintro ⟨hq, hmap⟩
      obtain ⟨old, holdrow, hsource⟩ := Option.map_eq_some_iff.mp hmap
      exact hother ⟨hq, (hold old holdrow).symm.trans hsource⟩

/-- The location record of a file id goes. -/
theorem Sound.of_deletion (h : Sound d omitted w) (hmetadata : w'.metadata = w.metadata)
    (hstores : w'.stores = w.stores) {id : String}
    (hids : ∀ q k, w'.locations.byFileId q k = if p = q ∧ id = k then none
      else w.locations.byFileId q k)
    (hsources : ∀ q s, w'.locations.byFileSource q s = if p = q ∧ fs = s then none
      else w.locations.byFileSource q s) : Sound d (also omitted p fs) w' where
  hashed ho := h.hashed (by rwa [World.object_of_stores hstores] at ho)
  placed hl := by
    rw [hids] at hl
    split_ifs at hl
    exact h.placed hl
  distinct hl hl' := by
    rw [hids] at hl hl'
    split_ifs at hl hl'
    exact h.distinct hl hl'
  truthful q s hq v hv hstate := by
    obtain ⟨homitted, hother⟩ := not_also hq
    rw [hmetadata] at hv
    obtain ⟨ref, ⟨l, hl, hrest⟩, hattests⟩ := h.truthful q s homitted v hv hstate
    refine ⟨ref, ⟨l, ?_, hrest⟩,
      fun o ho => hattests o (by rwa [World.object_of_stores hstores] at ho)⟩
    rwa [hsources, if_neg hother]

end Steps

section Harmless

/-- Calls that put no record, location or object into the state. -/
def Harmless : Port → Prop
  | .metadata (.create ..) | .metadata (.markReady ..) | .metadata (.update ..) => False
  | .locations (.save ..) | .locations (.updateSignedUrl ..) | .locations (.delete ..) => False
  | .blobs _ (.put ..) | .blobs _ (.copy ..) | .blobs _ (.removeTempFiles ..) => False
  | _ => True

variable (hlocal : d.backend = .local)
include hlocal

/-- A harmless call makes no row ready. -/
theorem Sound.harmless (h : Sound d omitted w) {op : Port} {r : op.Reply}
    (hexec : World.Exec d .none w op r w') (hop : Harmless op) : Sound d omitted w' := by
  have hquiet : op.Quiet → Sound d omitted w' := fun hq =>
    stable_sound w w' (hexec.quiet hq) h
  cases op with
  | metadata call =>
    obtain ⟨hlocations, hstores⟩ := hexec.metadata_frame
    refine h.of_rows hlocations hstores fun p fs v _ hv hstate => ?_
    cases call with
    | claimForWrite q record =>
      rcases hexec.claimForWrite hlocal with ⟨hw, -⟩ | ⟨-, -, hrows, -⟩
      · rwa [hw] at hv
      · rw [hrows] at hv
        split_ifs at hv
        · cases hv
          cases hstate
        · exact hv
    | releaseClaim q id version =>
      rcases hexec.releaseClaim hlocal with ⟨hw, -⟩ | ⟨v', -, -, -, -, hrows⟩
      · rwa [hw] at hv
      · rw [hrows] at hv
        split_ifs at hv
        exact hv
    | reclaimStaleClaiming q olderThan limit sources =>
      rcases hexec.reclaim hlocal p fs with hsame | ⟨-, -, -, -, hnone⟩
      · rwa [hsame] at hv
      · rw [hnone] at hv
        cases hv
    | delete q id =>
      rcases hexec.deleteRecord hlocal with ⟨hw, -⟩ | ⟨v', -, -, hrows⟩
      · rwa [hw] at hv
      · rw [hrows] at hv
        split_ifs at hv
        exact hv
    | getById q id => rwa [(hexec.quiet trivial).metadata] at hv
    | getLatestByFileSource q source => rwa [(hexec.quiet trivial).metadata] at hv
    | list q query => rwa [(hexec.quiet trivial).metadata] at hv
    | create q record => exact hop.elim
    | markReady q id version record => exact hop.elim
    | update q record => exact hop.elim
  | blobs store call =>
    cases call with
    | remove target =>
      obtain ⟨hmetadata, -, hlocations⟩ := hexec.blobs_frame
      rcases hexec.remove with ⟨hobject, -⟩ | hobject
      · exact stable_sound w w' ⟨hmetadata, hexec.blobs_frame.2.1, hlocations, hobject⟩ h
      · exact h.of_removal hmetadata hlocations hobject
    | put target data options => exact hop.elim
    | copy source target => exact hop.elim
    | removeTempFiles container olderThan dryRun => exact hop.elim
    | ensureContainer container => exact hquiet trivial
    | presignPut ref options => exact hquiet trivial
    | presignGet ref options => exact hquiet trivial
    | get ref range => exact hquiet trivial
    | stat ref => exact hquiet trivial
    | list container pre token limit => exact hquiet trivial
  | locations call =>
    cases call with
    | find q id => exact hquiet trivial
    | findByFileSource q source => exact hquiet trivial
    | list q query => exact hquiet trivial
    | save q location => exact hop.elim
    | updateSignedUrl q id url updatedAt => exact hop.elim
    | delete q id => exact hop.elim
  | _ => exact hquiet trivial

end Harmless

end FileService.Checksums
