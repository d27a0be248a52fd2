import FileService.Safety.DryRun

/-!
# What a collection leaves alone

A file is live if a location record names its object and a ready metadata record
has its file source. A collection run that is told the truth about that metadata
record removes neither the object nor the location record, in any stage and
whatever other calls fail.
-/
namespace FileService.Safety.LiveObjects
open FileService.Common FileService.Domain FileService.Interaction FileService.App
open FileService.Infra FileService.Domain.World FileService.Safety.DryRun

variable {d : Deployment} {faults : Faults} {w w' : World} {partition : String}
variable {location : FileLocation} {ref target : ObjectRef} {store : StoreId}

/-- The location record of a registered file names an object that is there, and no other record
of the partition names it. -/
structure Live (d : Deployment) (partition : String) (location : FileLocation) (ref : ObjectRef)
    (w : World) : Prop where
  recorded : w.locations.byFileId partition location.fileId = some location
  only : ∀ other, w.locations.byFileId partition other.fileId = some other →
    referenceKey? other = referenceKey? location → other = location
  registered : registered d w partition location.fileSource = true
  present : (w.object (d.store partition location.zone) ref).isSome = true

/-- Where the object of the record is. -/
structure Placed (location : FileLocation) (ref : ObjectRef) : Prop where
  physical : physicalRef location = .ref ref
  lasting : isTempKey ref.key = false

/-- The lookups of the metadata record are answered truthfully. -/
def Truthful (faults : Faults) (partition fileSource : String) : Prop :=
  ¬faults.lost (.metadata (.getLatestByFileSource partition fileSource)) ∧
    ¬faults.unacknowledged (.metadata (.getLatestByFileSource partition fileSource))

/-! ## Calls -/

section Calls
variable {op : Port} {r : op.Reply}

theorem Placed.referenceKey (h : Placed location ref) :
    referenceKey? location = some (pairKey ref.container ref.key) := by
  simp only [referenceKey?, h.physical]

theorem Live.of_same (h : Live d partition location ref w) (hmetadata : w'.metadata = w.metadata)
    (hremote : w'.remote = w.remote) (hlocations : w'.locations = w.locations)
    (hobject : w'.object (d.store partition location.zone) ref =
      w.object (d.store partition location.zone) ref) : Live d partition location ref w' where
  recorded := by
    rw [hlocations]
    exact h.recorded
  only := by
    rw [hlocations]
    exact h.only
  registered := by
    unfold DryRun.registered
    rw [latest_congr hmetadata hremote]
    exact h.registered
  present := by
    rw [hobject]
    exact h.present

theorem Live.sameData (h : Live d partition location ref w) (hsame : SameData w w') :
    Live d partition location ref w' :=
  h.of_same hsame.metadata hsame.remote hsame.locations (hsame.object _ _)

/-- A removal at another place. -/
theorem Live.remove (h : Live d partition location ref w) {r : Result Unit}
    (hplace : store = d.store partition location.zone → ¬SamePlace target ref)
    (hexec : Exec d faults w (.blobs store (.remove target)) r w') :
    Live d partition location ref w' := by
  obtain ⟨hmetadata, hremote, hlocations⟩ := hexec.blobs_frame
  refine h.of_same hmetadata hremote hlocations ?_
  rcases hexec.remove with ⟨hobject, -⟩ | hobject
  · exact hobject _ _
  · rw [hobject, if_neg]
    rintro ⟨rfl, hsame⟩
    exact hplace rfl hsame

/-- A sweep leaves objects whose keys are not temporary. -/
theorem Live.sweep (h : Live d partition location ref w) (hplaced : Placed location ref)
    {container : String} {olderThan : Int} {dryRun : Bool} {r : Result TempSweepResult}
    (hexec : Exec d faults w (.blobs store (.removeTempFiles container olderThan dryRun)) r w') :
    Live d partition location ref w' := by
  obtain ⟨hmetadata, hremote, hlocations⟩ := hexec.blobs_frame
  refine h.of_same hmetadata hremote hlocations ?_
  rcases hexec.blob_cases with ⟨rfl, -⟩ | ⟨rfl, -⟩
  · rfl
  · rw [object_update]
    split_ifs with hstore
    · subst hstore
      rcases InMemoryBlobStore.removeTempFiles_objectAt (w.stores (d.store partition location.zone))
        container olderThan dryRun ref.container ref.key with hkept | ⟨-, htemp, -⟩
      · exact hkept
      · exact absurd (hplaced.lasting.symm.trans htemp) (by simp)
    · rfl

/-- A deletion of another location record. -/
theorem Live.deleteLocation (h : Live d partition location ref w) {id : String} {r : Result Unit}
    (hid : id ≠ location.fileId)
    (hexec : Exec d faults w (.locations (.delete partition id)) r w') :
    Live d partition location ref w' := by
  obtain ⟨hmetadata, hremote, hstores⟩ := hexec.locations_frame
  rcases hexec.deleteLocation with ⟨hsame, -⟩ | ⟨old, -, hids, -⟩
  · exact h.of_same hmetadata hremote hsame (object_of_stores hstores _ _)
  · refine ⟨?_, fun other hother => h.only other ?_, ?_, ?_⟩
    · rw [hids, if_neg fun hsame => hid hsame.2]
      exact h.recorded
    · rw [hids] at hother
      split_ifs at hother
      exact hother
    · unfold DryRun.registered
      rw [latest_congr hmetadata hremote]
      exact h.registered
    · rw [object_of_stores hstores]
      exact h.present

/-- A reclaim takes claims, and no ready record. -/
theorem Live.reclaim (h : Live d partition location ref w) {olderThan limit : Int}
    {sources : List String} {r : Result Int}
    (hexec : Exec d faults w (.metadata (.reclaimStaleClaiming partition olderThan limit sources))
      r w') : Live d partition location ref w' := by
  obtain ⟨hlocations, hstores⟩ := hexec.metadata_frame
  have hregistered := h.registered
  refine ⟨hlocations ▸ h.recorded, hlocations ▸ h.only, ?_, ?_⟩
  · unfold DryRun.registered at hregistered ⊢
    rw [Bool.and_eq_true] at hregistered ⊢
    refine ⟨hregistered.1, ?_⟩
    cases hb : d.backend with
    | «local» =>
      have hready := hregistered.2
      rw [latest_local hb] at hready ⊢
      obtain ⟨record, hrecord⟩ : ∃ record, w.metadata.getLatestByFileSource partition
          location.fileSource = .ok record := by
        cases hfound : w.metadata.getLatestByFileSource partition location.fileSource with
        | ok record => exact ⟨record, rfl⟩
        | error e =>
          rw [hfound] at hready
          cases hready
      obtain ⟨v, hrow, hstate, hv⟩ := InMemoryMetadataRepository.getLatestByFileSource_eq_ok.mp hrecord
      rcases hexec.reclaim hb partition location.fileSource with hsame | ⟨v', -, hrow', hclaim, -⟩
      · have hfound := InMemoryMetadataRepository.getLatestByFileSource_eq_ok.mpr
          ⟨v, hsame.trans hrow, hstate, hv⟩
        rw [hfound]
        rfl
      · rw [hrow] at hrow'
        obtain rfl := Option.some.inj hrow'
        exact absurd (hstate.symm.trans hclaim.1) (by simp)
    | remote =>
      have hsame : w'.metadata = w.metadata ∧ w'.remote = w.remote := by
        rcases hexec.outcome (by simp) with ⟨-, -, rfl⟩ | ⟨uuid, -, rfl⟩ | ⟨-, -, rfl⟩
        · exact ⟨rfl, rfl⟩
        · simp only [apply, hb, remoteCall, and_self]
        · simp only [apply, hb, remoteCall, and_self]
      rw [latest_congr hsame.1 hsame.2]
      exact hregistered.2
  · rw [object_of_stores hstores]
    exact h.present

end Calls

/-! ## Stages -/

/-- Reads and the like do not break the assertion. -/
def Steady (P : World → Prop) : Prop := ∀ w w', SameData w w' → P w → P w'

theorem steady_live : Steady (Live d partition location ref) := fun _ _ hsame h => h.sameData hsame

section Stages
variable {P : World → Prop} {E : Exit → World → Prop} {options : GcOptions} {report : GcReport}

theorem ensures_quiet {op : Port} (hP : Steady P) (hop : op.Quiet) :
    Action.Ensures (Exec d faults) P (Action.ask op) (fun _ => P) E :=
  Action.ensures_call fun w _ w' hw hexec => hP w w' (hexec.quiet hop) hw

theorem ensures_attempt {α : Type} {x : Domain.Action α} {Q : α → World → Prop}
    (hx : Action.Ensures (Exec d faults) P x Q fun _ => Live d partition location ref)
    (hQ : ∀ a w, Q a w → Live d partition location ref w) :
    Action.Ensures (Exec d faults) P (Action.attempt x)
      (fun out w => Live d partition location ref w ∧ ∀ a, out = .ok a → Q a w)
      fun _ => Live d partition location ref := by
  refine Action.Ensures.exitingWith hx (fun a => ?_) fun exit => ?_
  · refine Program.ensures_pure fun w hw => ⟨hQ a w hw, ?_⟩
    rintro _ ⟨⟩
    exact hw
  · cases exit with
    | error e => exact Program.ensures_pure fun w hw => ⟨hw, by simp⟩
    | exception what => exact Program.ensures_pure fun w hw => hw
    | diverged => exact Program.ensures_pure fun w hw => hw

/-- The file keeps its record: a lookup of its source finds it. -/
theorem ensures_hasMetadataRecord (hlookup : Truthful faults partition location.fileSource)
    (hP : Steady P) (hlive : ∀ w, P w → Live d partition location ref w) (fileSource : String) :
    Action.Ensures (Exec d faults) P (hasMetadataRecord partition fileSource)
      (fun known w => (fileSource = location.fileSource → known = true) ∧ P w) E := by
  have hsource : ∀ w, P w → location.fileSource ≠ "" := by
    intro w hw hempty
    have hregistered := (hlive w hw).registered
    simp [DryRun.registered, hempty] at hregistered
  unfold hasMetadataRecord
  split_ifs with hempty
  · exact Action.ensures_pure fun w hw => ⟨fun hsame => absurd (hsame ▸ hempty) (hsource w hw), hw⟩
  · have hask : Action.Ensures (Exec d faults) P
        (Action.ask (.metadata (.getLatestByFileSource partition fileSource)))
        (fun found w => (fileSource = location.fileSource → found.isOk = true) ∧ P w) E := by
      refine Action.ensures_call fun w r w' hw hexec =>
        ⟨?_, hP w w' (hexec.quiet trivial) hw⟩
      rintro rfl
      have hregistered := (hlive w hw).registered
      simp only [DryRun.registered, Bool.and_eq_true] at hregistered
      rcases hexec.outcome (by simp) with ⟨-, hfault, -⟩ | ⟨uuid, rfl, -⟩ | ⟨-, hfault, -⟩
      · exact absurd hfault hlookup.1
      · exact hregistered.2
      · exact absurd hfault hlookup.2
    exact hask.bind fun found => Action.ensures_pure fun w hw => hw

/-- What is deleted is another object, and with it another location record. -/
theorem ensures_deleteCandidate {fileId : String} {deleteLocation : Bool}
    (hplace : store = d.store partition location.zone → ¬SamePlace target ref)
    (hid : deleteLocation = true → fileId ≠ location.fileId) :
    Action.Ensures (Exec d faults) (Live d partition location ref)
      (deleteCandidate options store target fileId deleteLocation partition report)
      (fun _ => Live d partition location ref) E := by
  unfold deleteCandidate
  by_cases hdry : options.dryRun = true
  · rw [if_pos hdry]
    exact Action.ensures_pure fun w hw => hw
  · rw [if_neg hdry]
    have hremove : Action.Ensures (Exec d faults) (Live d partition location ref)
        (Action.ask (.blobs store (.remove target))) (fun _ => Live d partition location ref) E :=
      Action.ensures_call fun w r w' hw hexec => hw.remove hplace hexec
    refine hremove.bind fun removed => ?_
    cases removed with
    | error e => exact Action.ensures_pure fun w hw => hw
    | ok u =>
      cases deleteLocation with
      | false => exact Action.ensures_pure fun w hw => hw
      | true =>
        have hdelete : Action.Ensures (Exec d faults) (Live d partition location ref)
            (Action.ask (.locations (.delete partition fileId)))
            (fun _ => Live d partition location ref) E :=
          Action.ensures_call fun w r w' hw hexec => hw.deleteLocation (hid rfl) hexec
        refine hdelete.bind fun deleted => ?_
        cases deleted <;> exact Action.ensures_pure fun w hw => hw

/-- The location record of the table that a lease leads to, if any. -/
def Recorded (partition : String) (found : Option FileLocation) (w : World) : Prop :=
  ∀ other, found = some other → w.locations.byFileId partition other.fileId = some other

theorem find_ok {fileId : String} (h : Exec d faults w (.locations (.find partition fileId))
    (.ok location) w') : w.locations.byFileId partition fileId = some location := by
  rcases h.location_cases with ⟨-, e, hr⟩ | ⟨-, hr | ⟨-, e, hr⟩⟩
  · cases hr
  · exact InMemoryLocationRepository.find_eq_ok.mp hr.symm
  · cases hr

theorem ensures_findLocation (hP : Steady P) (fileId : String) :
    Action.Ensures (Exec d faults) P (Action.ask (.locations (.find partition fileId)))
      (fun found w => Recorded partition found.toOption w ∧ P w) E := by
  refine Action.ensures_call fun w r w' hw hexec => ⟨?_, hP w w' (hexec.quiet trivial) hw⟩
  intro other hother
  rw [(hexec.quiet trivial).locations]
  cases r with
  | error e => cases hother
  | ok found =>
    obtain rfl := Option.some.inj hother
    have hfound := find_ok hexec
    rwa [InMemoryLocationRepository.byFileId_fileId hfound]

theorem ensures_findBySource (hP : Steady P) (fileSource : String) :
    Action.Ensures (Exec d faults) P
      (Action.ask (.locations (.findByFileSource partition fileSource)))
      (fun found w => Recorded partition found.toOption w ∧ P w) E := by
  refine Action.ensures_call fun w r w' hw hexec => ⟨?_, hP w w' (hexec.quiet trivial) hw⟩
  intro other hother
  rw [(hexec.quiet trivial).locations]
  cases r with
  | error e => cases hother
  | ok found =>
    obtain rfl := Option.some.inj hother
    exact (InMemoryLocationRepository.byFileSource_eq_some.mp hexec.findByFileSource_ok).1

theorem ensures_resolveLease (hP : Steady P) (lease : Lease) :
    Action.Ensures (Exec d faults) P (resolveLease partition lease)
      (fun found w => Recorded partition found w ∧ P w) E := by
  have hbySource : Action.Ensures (Exec d faults) P
      (if leaseKeyOf lease = "" then pure none
        else do
          let found ← Action.ask (.locations (.findByFileSource partition (leaseKeyOf lease)))
          pure found.toOption)
      (fun found w => Recorded partition found w ∧ P w) E := by
    split_ifs
    · exact Action.ensures_pure fun w hw => ⟨by simp [Recorded], hw⟩
    · exact (ensures_findBySource hP _).bind fun found => Action.ensures_pure fun w hw => hw
  unfold resolveLease
  dsimp only
  by_cases hid : lease.fileId = ""
  · rw [if_pos hid]
    exact hbySource
  · rw [if_neg hid]
    refine (ensures_findLocation hP lease.fileId).bind fun found => ?_
    cases found with
    | ok found => exact Action.ensures_pure fun w hw => hw
    | error e => exact hbySource.mono (fun w hw => hw.2) (fun _ _ h => h) fun _ _ h => h

/-- A record of another file names another object. -/
theorem Live.other (h : Live d partition location ref w) {other : FileLocation}
    (hrecorded : w.locations.byFileId partition other.fileId = some other)
    (hsource : other.fileSource ≠ location.fileSource) :
    other.fileId ≠ location.fileId ∧ referenceKey? other ≠ referenceKey? location := by
  have hne : other ≠ location := by
    rintro rfl
    exact hsource rfl
  constructor
  · intro hid
    rw [hid, h.recorded] at hrecorded
    exact hne (Option.some.inj hrecorded).symm
  · exact fun hkey => hne (h.only other hrecorded hkey)

theorem Placed.apart (hplaced : Placed location ref) {other : FileLocation}
    (hother : physicalRef other = .ref target)
    (hkey : referenceKey? other ≠ referenceKey? location) : ¬SamePlace target ref := by
  rintro ⟨hcontainer, hsame⟩
  refine hkey ?_
  rw [hplaced.referenceKey, ← hcontainer, ← hsame]
  simp only [referenceKey?, hother]

theorem ensures_objectRef {other : FileLocation}
    (hP : ∀ w, P w → Live d partition location ref w) :
    Action.Ensures (Exec d faults) P (objectRefFromLocation other)
      (fun target w => physicalRef other = .ref target ∧ P w)
      fun _ => Live d partition location ref := by
  unfold objectRefFromLocation
  cases hphysical : physicalRef other with
  | ref target => exact Action.ensures_pure fun w hw => ⟨rfl, hw⟩
  | incomplete => exact Action.ensures_throw fun w hw => hP w hw
  | notText => exact Action.ensures_throw fun w hw => hP w hw

/-- A claimed lease leads to another location record, or to a registered file. -/
theorem ensures_collectLease (hplaced : Placed location ref)
    (hlookup : Truthful faults partition location.fileSource) (staging persistent : StoreId)
    (lease : Lease) : Action.Ensures (Exec d faults) (Live d partition location ref)
      (collectLease partition options staging persistent report lease)
      (fun _ => Live d partition location ref) fun _ => Live d partition location ref := by
  unfold collectLease
  refine (ensures_resolveLease steady_live lease).bind fun found => ?_
  cases found with
  | none => exact Action.ensures_pure fun w hw => hw.2
  | some other =>
    have hsteady : Steady fun w => Recorded partition (some other) w ∧
        Live d partition location ref w := by
      rintro w w' hsame ⟨hrecorded, hlive⟩
      exact ⟨fun l hl => hsame.locations ▸ hrecorded l hl, hlive.sameData hsame⟩
    refine (ensures_hasMetadataRecord hlookup hsteady (fun _ hw => hw.2) other.fileSource).bind
      fun known => ?_
    cases known with
    | true => exact Action.ensures_pure fun w hw => hw.2.2
    | false =>
      refine Action.Ensures.of_fact (F := other.fileId ≠ location.fileId ∧
        referenceKey? other ≠ referenceKey? location) (fun w hw => ?_) fun hother => ?_
      · exact hw.2.2.other (hw.2.1 other rfl) fun hsame => by simpa using hw.1 hsame
      · refine (ensures_attempt (ensures_objectRef fun w hw => hw.2.2) fun _ w hw => hw.2.2.2).bind
          fun out => ?_
        cases out with
        | error e => exact Action.ensures_pure fun w hw => hw.1
        | ok target =>
          refine Action.Ensures.of_fact (F := physicalRef other = .ref target)
            (fun w hw => (hw.2 target rfl).1) fun hphysical => ?_
          exact (ensures_deleteCandidate (fun _ => hplaced.apart hphysical hother.2)
            fun _ => hother.1).mono (fun w hw => hw.1) (fun _ _ h => h) fun _ _ h => h

theorem ensures_collectLeases (hplaced : Placed location ref)
    (hlookup : Truthful faults partition location.fileSource) (staging persistent : StoreId)
    (leases : List Lease) (report : GcReport) :
    Action.Ensures (Exec d faults) (Live d partition location ref)
      (collectLeases partition options staging persistent leases report)
      (fun _ => Live d partition location ref) fun _ => Live d partition location ref := by
  induction leases generalizing report with
  | nil => exact Action.ensures_pure fun w hw => hw
  | cons lease leases ih =>
    exact (ensures_collectLease hplaced hlookup staging persistent lease).bind fun report => ih report

theorem ensures_collectExpiredLeases (hplaced : Placed location ref)
    (hlookup : Truthful faults partition location.fileSource) (staging persistent : StoreId)
    (instanceId : String) (nowSeconds : Int) :
    Action.Ensures (Exec d faults) (Live d partition location ref)
      (collectExpiredLeases instanceId partition options staging persistent nowSeconds report)
      (fun _ => Live d partition location ref) fun _ => Live d partition location ref := by
  have hquiet : Port.Quiet (.leases (.claimExpired partition options.claimLimit instanceId)) :=
    trivial
  unfold collectExpiredLeases
  refine (ensures_quiet steady_live hquiet).bind fun claimed => ?_
  cases claimed with
  | error e => exact Action.ensures_pure fun w hw => hw
  | ok claimed =>
    dsimp only
    split_ifs
    · exact ensures_collectLeases hplaced hlookup staging persistent claimed _
    · have hreclaim : Action.Ensures (Exec d faults) (Live d partition location ref)
          (Action.ask (.metadata (.reclaimStaleClaiming partition
            (nowSeconds - options.leaseTtlSeconds) options.claimLimit (claimed.map leaseKeyOf))))
          (fun _ => Live d partition location ref) fun _ => Live d partition location ref :=
        Action.ensures_call fun w r w' hw hexec => hw.reclaim hexec
      refine hreclaim.bind fun reclaimed => ?_
      cases reclaimed <;> exact ensures_collectLeases hplaced hlookup staging persistent claimed _

end Stages

/-! ## Scans -/

/-- The map of references has the object under its record, and nothing else under it. -/
structure Covers (location : FileLocation) (ref : ObjectRef) (refs : RefMap) : Prop where
  own : refs[pairKey ref.container ref.key]? = some (location.fileId, location.fileSource)
  others : ∀ reference found, reference ≠ pairKey ref.container ref.key →
    refs[reference]? = some found → found.1 ≠ location.fileId

/-- The location records of the partition are all read. -/
def allReferences (partition : String) (locations : InMemoryLocationRepository) : RefMap :=
  (locations.matched partition {}).foldl addReference ∅

theorem Live.covers (h : Live d partition location ref w) (hplaced : Placed location ref) :
    Covers location ref (allReferences partition w.locations) := by
  have hnamed : ∀ reference found, (allReferences partition w.locations)[reference]? = some found →
      ∃ other, w.locations.byFileId partition other.fileId = some other ∧
        referenceKey? other = some reference ∧ found = (other.fileId, other.fileSource) := by
    intro reference found hfound
    rcases getElem?_addReferences hfound with hempty | ⟨other, hmem, hkey, rfl⟩
    · simp at hempty
    · exact ⟨other, (InMemoryLocationRepository.mem_matched.mp hmem).1, hkey, rfl⟩
  constructor
  case own =>
    have hsome : ((allReferences partition w.locations)[pairKey ref.container ref.key]?).isSome =
        true :=
      isSome_addReferences (.inr ⟨location, InMemoryLocationRepository.mem_matched.mpr
        ⟨h.recorded, by simp [InMemoryLocationRepository.matchesQuery]⟩, hplaced.referenceKey⟩)
    obtain ⟨found, hfound⟩ := Option.isSome_iff_exists.mp hsome
    obtain ⟨other, hrecorded, hkey, rfl⟩ := hnamed _ _ hfound
    rw [hfound, h.only other hrecorded (hkey.trans hplaced.referenceKey.symm)]
  case others =>
    intro reference found hne hfound hid
    obtain ⟨other, hrecorded, hkey, rfl⟩ := hnamed _ _ hfound
    rw [show other.fileId = location.fileId from hid, h.recorded] at hrecorded
    obtain rfl := Option.some.inj hrecorded
    exact hne (Option.some.inj (hkey.symm.trans hplaced.referenceKey))

section Scans
variable {options : GcOptions} {report : GcReport} {container : String}
variable {locations : InMemoryLocationRepository}

theorem ensures_listLocations {offset : Nat} : Action.Ensures (Exec d faults)
    (fun w => w.locations = locations ∧ Live d partition location ref w)
    (Action.ask (.locations (.list partition { limit := 500, offset })))
    (fun reply w => (∀ page, reply = .ok page →
        page.records = ((locations.matched partition {}).drop offset).take 500 ∧
          page.total = (locations.matched partition {}).length) ∧
      w.locations = locations ∧ Live d partition location ref w)
    fun _ => Live d partition location ref := by
  refine Action.ensures_call fun w r w' ⟨hsame, hw⟩ hexec => ?_
  have hquiet : SameData w w' := hexec.quiet trivial
  refine ⟨?_, hquiet.locations.trans hsame, hw.sameData hquiet⟩
  rintro page rfl
  rcases hexec.location_cases with ⟨-, e, hr⟩ | ⟨-, hr | ⟨-, e, hr⟩⟩
  · cases hr
  · rw [hsame] at hr
    have hpage := hr.trans (locations.list_window partition offset)
    cases hpage
    exact ⟨rfl, rfl⟩
  · cases hr

/-- A scan that gets as far as the end has read all references. -/
theorem ensures_referencedRefsFrom (pages offset : Nat) (refs : RefMap)
    (hrefs : refs = ((locations.matched partition {}).take offset).foldl addReference ∅) :
    Action.Ensures (Exec d faults)
      (fun w => w.locations = locations ∧ Live d partition location ref w)
      (referencedRefsFrom partition pages offset refs)
      (fun refs w => refs = allReferences partition locations ∧ w.locations = locations ∧
        Live d partition location ref w) fun _ => Live d partition location ref := by
  induction pages generalizing offset refs with
  | zero => exact Action.ensures_throw fun w hw => hw.2
  | succ pages ih =>
    refine ensures_listLocations.bind fun reply => ?_
    cases reply with
    | error e => exact Action.ensures_throw fun w hw => hw.2.2
    | ok page =>
      refine Action.Ensures.of_fact (F := page.records =
          ((locations.matched partition {}).drop offset).take 500 ∧
            page.total = (locations.matched partition {}).length)
        (fun w hw => hw.1 page rfl) fun hpage => ?_
      have hoffset : (offset : Int) + page.records.length =
          ((offset + page.records.length : Nat) : Int) := by simp
      have hlength : page.records.length = min 500 ((locations.matched partition {}).length - offset) := by
        rw [hpage.1, List.length_take, List.length_drop]
      have hread : page.records.foldl addReference refs =
          ((locations.matched partition {}).take (offset + page.records.length)).foldl
            addReference ∅ := by
        rw [hrefs, hpage.1, ← List.foldl_append, List.take_add]
        congr 2
        rw [List.length_take, List.take_eq_take_min]
      dsimp only [Action.tryResult]
      simp only [pure_bind, hoffset]
      split_ifs with hend
      · refine Action.ensures_pure fun w hw => ⟨?_, hw.2⟩
        rw [hread, List.take_of_length_le, allReferences]
        simp only [Bool.or_eq_true, List.isEmpty_iff_length_eq_zero, decide_eq_true_eq,
          hpage.2] at hend
        omega
      · exact (ih _ _ hread).mono (fun w hw => hw.2) (fun _ _ h => h) fun _ _ h => h

theorem ensures_referencedRefs (hplaced : Placed location ref) (pages : Nat) :
    Action.Ensures (Exec d faults) (Live d partition location ref) (referencedRefs pages partition)
      (fun refs w => Covers location ref refs ∧ Live d partition location ref w)
      fun _ => Live d partition location ref := by
  have hread : ∀ locations, Action.Ensures (Exec d faults)
      (fun w => w.locations = locations ∧ Live d partition location ref w)
      (referencedRefs pages partition)
      (fun refs w => Covers location ref refs ∧ Live d partition location ref w)
      fun _ => Live d partition location ref := by
    intro locations
    refine (ensures_referencedRefsFrom pages 0 ∅ (by simp)).mono (fun _ h => h) ?_ fun _ _ h => h
    rintro refs w ⟨rfl, rfl, hw⟩
    exact ⟨hw.covers hplaced, hw⟩
  exact (Action.Ensures.of_exists hread).mono (fun w hw => ⟨w.locations, rfl, hw⟩) (fun _ _ h => h)
    fun _ _ h => h

/-- An object of a listing that goes is not the one of the file. -/
theorem ensures_deleteEntry (entry : ListEntry) {fileId : String} {deleteLocation : Bool}
    (hkey : pairKey container entry.key ≠ pairKey ref.container ref.key)
    (hid : deleteLocation = true → fileId ≠ location.fileId) :
    Action.Ensures (Exec d faults) (Live d partition location ref)
      (deleteCandidate options store { container, key := entry.key } fileId deleteLocation partition
        report)
      (fun _ => Live d partition location ref) fun _ => Live d partition location ref := by
  refine ensures_deleteCandidate (fun _ => ?_) hid
  rintro ⟨hcontainer, hsame⟩
  exact hkey (by rw [← hcontainer, ← hsame])

/-- A temporary object has another key. -/
theorem ensures_collectTempEntry (hplaced : Placed location ref) {cutoff : Int} {entry : ListEntry}
    (htemp : isTempKey entry.key = true) :
    Action.Ensures (Exec d faults) (Live d partition location ref)
      (collectTempEntry options store container partition cutoff report entry)
      (fun _ => Live d partition location ref) fun _ => Live d partition location ref := by
  unfold collectTempEntry
  split_ifs
  · exact Action.ensures_pure fun w hw => hw
  · refine ensures_deleteCandidate (fun _ => ?_) (by simp)
    rintro ⟨-, hsame⟩
    have hlasting := hplaced.lasting
    rw [← hsame] at hlasting
    exact absurd (hlasting.symm.trans htemp) (by simp)

/-- What is an object of a container to a scan. -/
def KeepsLive (d : Deployment) (faults : Faults) (partition : String) (location : FileLocation)
    (ref : ObjectRef) (entry : GcReport → ListEntry → Domain.Action GcReport) : Prop :=
  ∀ report e, Action.Ensures (Exec d faults) (Live d partition location ref) (entry report e)
    (fun _ => Live d partition location ref) fun _ => Live d partition location ref

theorem keepsLive_collectOrphanEntry (hplaced : Placed location ref) {refs : RefMap}
    (hrefs : Covers location ref refs) (cutoff : Int) :
    KeepsLive d faults partition location ref
      (collectOrphanEntry options store container partition refs cutoff) := by
  intro report entry
  unfold collectOrphanEntry
  split_ifs with htemp hknown hyoung
  · exact ensures_collectTempEntry hplaced htemp
  · exact Action.ensures_pure fun w hw => hw
  · exact Action.ensures_pure fun w hw => hw
  · refine ensures_deleteEntry entry (fun hsame => hknown ?_) (by simp)
    rw [hsame, ← Std.ExtTreeMap.isSome_getElem?_eq_contains, hrefs.own]
    rfl

theorem keepsLive_collectStagingEntry (hplaced : Placed location ref)
    (hlookup : Truthful faults partition location.fileSource) {refs : RefMap}
    (hrefs : Covers location ref refs) (cutoff : Int) :
    KeepsLive d faults partition location ref
      (collectStagingEntry options store container partition refs cutoff) := by
  intro report entry
  unfold collectStagingEntry
  split_ifs with htemp hyoung
  · exact ensures_collectTempEntry hplaced htemp
  · exact Action.ensures_pure fun w hw => hw
  · dsimp only
    cases hfound : refs[pairKey container entry.key]? with
    | none =>
      refine ensures_deleteEntry entry (fun hsame => ?_) (by simp)
      rw [hsame, hrefs.own] at hfound
      cases hfound
    | some found =>
      obtain ⟨fileId, fileSource⟩ := found
      refine (ensures_hasMetadataRecord hlookup steady_live (fun _ hw => hw) fileSource).bind
        fun known => ?_
      cases known with
      | true => exact Action.ensures_pure fun w hw => hw.2
      | false =>
        refine Action.Ensures.of_fact (F := fileSource ≠ location.fileSource)
          (fun w hw hsame => by simpa using hw.1 hsame) fun hsource => ?_
        have hkey : pairKey container entry.key ≠ pairKey ref.container ref.key := by
          intro hsame
          rw [hsame, hrefs.own] at hfound
          exact hsource (congrArg Prod.snd (Option.some.inj hfound)).symm
        exact (ensures_deleteEntry entry hkey fun _ => hrefs.others _ _ hkey hfound).mono
          (fun w hw => hw.2) (fun _ _ h => h) fun _ _ h => h

theorem ensures_foldlM {entry : GcReport → ListEntry → Domain.Action GcReport}
    (hentry : KeepsLive d faults partition location ref entry) (entries : List ListEntry)
    (report : GcReport) : Action.Ensures (Exec d faults) (Live d partition location ref)
      (entries.foldlM entry report) (fun _ => Live d partition location ref)
      fun _ => Live d partition location ref := by
  induction entries generalizing report with
  | nil => exact Action.ensures_pure fun w hw => hw
  | cons e entries ih =>
    rw [List.foldlM_cons]
    exact (hentry report e).bind fun report => ih report

theorem ensures_forEachEntry {entry : GcReport → ListEntry → Domain.Action GcReport}
    (hentry : KeepsLive d faults partition location ref entry) (pages : Nat) (token : String)
    (report : GcReport) : Action.Ensures (Exec d faults) (Live d partition location ref)
      (forEachEntry store container entry pages token report)
      (fun _ => Live d partition location ref) fun _ => Live d partition location ref := by
  induction pages generalizing token report with
  | zero => exact Action.ensures_throw fun w hw => hw
  | succ pages ih =>
    have hquiet : Port.Quiet (.blobs store (.list container "" token 500)) := trivial
    unfold forEachEntry
    refine (ensures_quiet steady_live hquiet).bind fun reply => ?_
    cases reply with
    | error e => exact Action.ensures_pure fun w hw => hw
    | ok page =>
      refine (ensures_foldlM hentry page.entries report).bind fun report => ?_
      split_ifs
      · exact Action.ensures_pure fun w hw => hw
      · exact ih page.continuationToken report

theorem ensures_containerFor (zone : StorageZone) : Action.Ensures (Exec d faults)
    (Live d partition location ref) (containerFor partition zone)
    (fun _ => Live d partition location ref) fun _ => Live d partition location ref := by
  have hquiet : Port.Quiet (.partitionConfig partition) := trivial
  exact (ensures_quiet steady_live hquiet).bind fun config => Action.ensures_pure fun w hw => hw

theorem ensures_scanZone (hplaced : Placed location ref) (pages : Nat) (zone : StorageZone)
    {entry : String → RefMap → GcReport → ListEntry → Domain.Action GcReport}
    (hentry : ∀ container refs, Covers location ref refs →
      KeepsLive d faults partition location ref (entry container refs)) :
    Action.Ensures (Exec d faults) (Live d partition location ref)
      (scanZone pages partition zone store entry report)
      (fun _ => Live d partition location ref) fun _ => Live d partition location ref := by
  unfold scanZone
  refine (ensures_containerFor zone).bind fun container => ?_
  cases container with
  | error e => exact Action.ensures_pure fun w hw => hw
  | ok container =>
    refine (ensures_attempt (ensures_referencedRefs hplaced pages) fun _ w hw => hw.2).bind
      fun refs => ?_
    cases refs with
    | error e => exact Action.ensures_pure fun w hw => hw.1
    | ok refs =>
      refine Action.Ensures.of_fact (F := Covers location ref refs) (fun w hw => (hw.2 refs rfl).1)
        fun hrefs => ?_
      exact (ensures_forEachEntry (hentry container refs hrefs) pages "" report).mono
        (fun w hw => hw.1) (fun _ _ h => h) fun _ _ h => h

theorem ensures_sweepTempFiles (hplaced : Placed location ref) (cutoff : Int) (zone : StorageZone) :
    Action.Ensures (Exec d faults) (Live d partition location ref)
      (sweepTempFiles partition options cutoff store zone report)
      (fun _ => Live d partition location ref) fun _ => Live d partition location ref := by
  unfold sweepTempFiles
  refine (ensures_containerFor zone).bind fun container => ?_
  cases container with
  | error e => exact Action.ensures_pure fun w hw => hw
  | ok container =>
    have hsweep : Action.Ensures (Exec d faults) (Live d partition location ref)
        (Action.ask (.blobs store (.removeTempFiles container cutoff options.dryRun)))
        (fun _ => Live d partition location ref) fun _ => Live d partition location ref :=
      Action.ensures_call fun w r w' hw hexec => hw.sweep hplaced hexec
    refine hsweep.bind fun swept => ?_
    cases swept <;> exact Action.ensures_pure fun w hw => hw

end Scans

/-! ## Whole runs -/

section Runs
variable {options : GcOptions} {pages : Nat} {instanceId : String}

theorem ensures_resolveStore (message : String) (zone : StorageZone) : Action.Ensures (Exec d faults)
    (Live d partition location ref) (gcStages.resolveStore partition message zone)
    (fun _ => Live d partition location ref) fun _ => Live d partition location ref := by
  have hquiet : Port.Quiet (.forPartition partition zone) := trivial
  refine (ensures_quiet steady_live hquiet).bind fun found => ?_
  cases found with
  | ok store => exact Action.ensures_pure fun w hw => hw
  | error e => exact Action.ensures_throw fun w hw => hw

theorem ensures_scans (hplaced : Placed location ref)
    (hlookup : Truthful faults partition location.fileSource) (staging persistent : StoreId)
    (nowSeconds : Int) (report : GcReport) :
    Action.Ensures (Exec d faults) (Live d partition location ref)
      (scans pages partition options staging persistent nowSeconds report)
      (fun _ => Live d partition location ref) fun _ => Live d partition location ref := by
  have horphans : ∀ report, Action.Ensures (Exec d faults) (Live d partition location ref)
      (collectOrphanObjects pages partition options persistent nowSeconds report)
      (fun _ => Live d partition location ref) fun _ => Live d partition location ref := fun report =>
    ensures_scanZone hplaced pages .persistent fun container refs hrefs =>
      keepsLive_collectOrphanEntry hplaced hrefs _
  unfold scans
  dsimp only
  split_ifs
  · refine (horphans report).bind fun report => ?_
    exact (ensures_sweepTempFiles hplaced _ .staging).bind fun report =>
      ensures_sweepTempFiles hplaced _ .persistent
  · refine (ensures_scanZone hplaced pages .staging fun container refs hrefs =>
      keepsLive_collectStagingEntry hplaced hlookup hrefs _).bind fun report => ?_
    refine (horphans report).bind fun report => ?_
    exact (ensures_sweepTempFiles hplaced _ .staging).bind fun report =>
      ensures_sweepTempFiles hplaced _ .persistent

theorem ensures_gcStages (hplaced : Placed location ref)
    (hlookup : Truthful faults partition location.fileSource) :
    Action.Ensures (Exec d faults) (Live d partition location ref)
      (gcStages pages instanceId partition options)
      (fun _ => Live d partition location ref) fun _ => Live d partition location ref := by
  have hclock : Port.Quiet .nowEpochSeconds := trivial
  rw [gcStages_eq]
  by_cases hpartition : partition = ""
  · rw [if_pos hpartition]
    exact Action.ensures_throw fun w hw => hw
  · rw [if_neg hpartition]
    by_cases hlimit : options.claimLimit ≤ 0
    · rw [if_pos hlimit]
      exact Action.ensures_throw fun w hw => hw
    · rw [if_neg hlimit]
      refine (ensures_resolveStore _ .staging).bind fun staging => ?_
      refine (ensures_resolveStore _ .persistent).bind fun persistent => ?_
      refine (ensures_quiet steady_live hclock).bind fun now => ?_
      exact (ensures_collectExpiredLeases hplaced hlookup staging persistent instanceId now).bind
        fun report => ensures_scans hplaced hlookup staging persistent now report

theorem ensures_runGc (hplaced : Placed location ref)
    (hlookup : Truthful faults partition location.fileSource) :
    Action.Ensures (Exec d faults) (Live d partition location ref)
      (runGc pages instanceId partition options)
      (fun _ => Live d partition location ref) fun _ => Live d partition location ref := by
  have hlock : Port.Quiet (.runMutex (.tryLock instanceId)) := trivial
  have hunlock : Port.Quiet (.runMutex (.unlock instanceId)) := trivial
  have hasked : Action.Ensures (Exec d faults) (Live d partition location ref)
      (Action.ask (.runMutex (.unlock instanceId))) (fun _ => Live d partition location ref)
      fun _ => Live d partition location ref := ensures_quiet steady_live hunlock
  have hunlocked : Program.Ensures (Exec d faults) (Live d partition location ref)
      (Action.ask (.runMutex (.unlock instanceId))).run fun _ => Live d partition location ref :=
    Program.Ensures.mono hasked (fun _ h => h) fun out w hw => by cases out <;> exact hw
  unfold runGc
  refine (ensures_quiet steady_live hlock).bind fun acquired => ?_
  cases acquired with
  | false => exact Action.ensures_throw fun w hw => hw
  | true =>
    exact Domain.Action.Ensures.destructing (ensures_gcStages hplaced hlookup)
      (fun _ => hunlocked) fun _ => hunlocked

end Runs

/-! ## A registered file whose lease has expired -/

abbrev registeredLocation : FileLocation := sampleLocation .persistent "p-persistent"

def registeredWorld : World :=
  { migratedWorld with
    metadata := (InMemoryMetadataRepository.create {} 0 "p" { sampleRecord with id := "p:r" }).2
    leases := (InMemoryLeaseRepository.acquire {} 0 "p" sampleSource "i" 60000).2 }

theorem live_registeredWorld : Live sampleDeployment "p" registeredLocation
    ⟨"p-persistent", sampleKey, none⟩ registeredWorld := by
  have hrecords : ∀ id, registeredWorld.locations.byFileId "p" id =
      if "f" = id then some registeredLocation else none := by
    intro id
    have hsaved : ∃ hfs hfree, InMemoryLocationRepository.save {} "p" registeredLocation =
        (.ok (), InMemoryLocationRepository.put {} "p" registeredLocation hfs hfree) :=
      InMemoryLocationRepository.save_eq_ok (by decide) (by decide) (by decide)
        (by simp [InMemoryLocationRepository.byFileSource, Indexed.findBySource])
    obtain ⟨hfs, hfree, hsave⟩ := hsaved
    have hput : registeredWorld.locations =
        InMemoryLocationRepository.put {} "p" registeredLocation hfs hfree :=
      congrArg Prod.snd hsave
    rw [hput, InMemoryLocationRepository.byFileId_put]
    simp [InMemoryLocationRepository.byFileId, Buckets.get?, registeredLocation, sampleLocation]
  refine ⟨hrecords "f", fun other hother _ => ?_, by decide +kernel, by decide +kernel⟩
  rw [hrecords] at hother
  split_ifs at hother
  exact (Option.some.inj hother).symm

end FileService.Safety.LiveObjects
