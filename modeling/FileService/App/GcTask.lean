import FileService.App.Support

/-!
# Garbage collection

`GcTask::Run`: the leases that expired, the staging objects that are too old,
the persistent objects that no location record names, and the temporary files.
Each stage takes the report so far and returns it with its own counts.
-/
namespace FileService.App
open FileService.Common FileService.Domain

structure GcOptions where
  dryRun : Bool := true
  requireLeaseExpiry : Bool := true
  stagingTtlHours : Int := 24
  orphanGraceHours : Int := 72
  claimLimit : Int := 100
  leaseTtlSeconds : Int := 60

structure GcReport where
  dryRun : Bool := true
  expiredLeasesClaimed : Int := 0
  reclaimedClaiming : Int := 0
  deletedObjects : Int := 0
  deletedLocations : Int := 0
  skippedHasRecord : Int := 0
  skippedNoLocation : Int := 0
  skippedTooYoung : Int := 0
  tmpRemoved : Int := 0
  tmpSkippedTooYoung : Int := 0
  tmpSkippedUnknownMtime : Int := 0
  errors : Int := 0
  deletedFileIds : List String := []

namespace GcReport

def addError (report : GcReport) : GcReport := { report with errors := report.errors + 1 }

def addDeleted (report : GcReport) (fileId : String) : GcReport :=
  { report with
    deletedObjects := report.deletedObjects + 1
    deletedFileIds := report.deletedFileIds ++ [fileId] }

end GcReport

def tempKeyMarker : String := ".tmp."

def isTempKey (key : String) : Bool := Text.containsText key tempKeyMarker

/-- `PairKey` -/
def pairKey (container key : String) : String := container ++ "\x1f" ++ key

def leaseKeyOf (lease : Lease) : String :=
  if lease.fileSource = "" then lease.fileId else lease.fileSource

/-- `HasMetadataRecord`: any failed lookup counts as no record. -/
def hasMetadataRecord (partition fileSource : String) : Action Bool :=
  if fileSource = "" then pure false
  else do
    let found ← Action.ask (.metadata (.getLatestByFileSource partition fileSource))
    return found.isOk

/-- `DeleteCandidate` -/
def deleteCandidate (options : GcOptions) (store : StoreId) (ref : ObjectRef) (fileId : String)
    (deleteLocation : Bool) (partition : String) (report : GcReport) : Action GcReport :=
  if options.dryRun then pure (report.addDeleted fileId)
  else do
    match ← Action.ask (.blobs store (.remove ref)) with
    | .error _ => return report.addError
    | .ok _ =>
      let report := report.addDeleted fileId
      if deleteLocation then
        match ← Action.ask (.locations (.delete partition fileId)) with
        | .ok _ => return { report with deletedLocations := report.deletedLocations + 1 }
        | .error _ => return report
      else return report

/-- The location record of a lease: by file id, else by the lease key as file source. -/
def resolveLease (partition : String) (lease : Lease) : Action (Option FileLocation) := do
  let byId ←
    if lease.fileId = "" then pure none
    else do
      let found ← Action.ask (.locations (.find partition lease.fileId))
      pure found.toOption
  match byId with
  | some location => return some location
  | none =>
    if leaseKeyOf lease = "" then return none
    else
      let found ← Action.ask (.locations (.findByFileSource partition (leaseKeyOf lease)))
      return found.toOption

/-- One claimed lease of `CollectExpiredLeases`. -/
def collectLease (partition : String) (options : GcOptions) (staging persistent : StoreId)
    (report : GcReport) (lease : Lease) : Action GcReport := do
  match ← resolveLease partition lease with
  | none => return { report with skippedNoLocation := report.skippedNoLocation + 1 }
  | some location =>
    if ← hasMetadataRecord partition location.fileSource then
      return { report with skippedHasRecord := report.skippedHasRecord + 1 }
    else
      match ← Action.attempt (objectRefFromLocation location) with
      | .error _ => return report.addError
      | .ok ref =>
        let store := if location.zone = .persistent then persistent else staging
        deleteCandidate options store ref location.fileId true partition report

def collectLeases (partition : String) (options : GcOptions) (staging persistent : StoreId) :
    List Lease → GcReport → Action GcReport
  | [], report => pure report
  | lease :: leases, report => do
    let report ← collectLease partition options staging persistent report lease
    collectLeases partition options staging persistent leases report

/-- `CollectExpiredLeases` -/
def collectExpiredLeases (instanceId partition : String) (options : GcOptions)
    (staging persistent : StoreId) (nowSeconds : Int) (report : GcReport) : Action GcReport := do
  match ← Action.ask (.leases (.claimExpired partition options.claimLimit instanceId)) with
  | .error _ => return report.addError
  | .ok claimed =>
    let report := { report with expiredLeasesClaimed := claimed.length }
    let report ←
      if claimed.isEmpty then pure report
      else do
        match ← Action.ask (.metadata (.reclaimStaleClaiming partition
          (nowSeconds - options.leaseTtlSeconds) options.claimLimit
          (claimed.map leaseKeyOf))) with
        | .error _ => pure report.addError
        | .ok reclaimed => pure { report with reclaimedClaiming := reclaimed }
    collectLeases partition options staging persistent claimed report

/-- File id and file source by physical reference. -/
abbrev RefMap := Std.ExtTreeMap String (String × String)

/-- What one location record adds to the reference map. -/
def addReference (refs : RefMap) (location : FileLocation) : RefMap :=
  match physicalRef location with
  | .ref ref => refs.insert (pairKey ref.container ref.key) (location.fileId, location.fileSource)
  | _ => refs

/-- The key under which a location record is found in the map. -/
def referenceKey? (location : FileLocation) : Option String :=
  match physicalRef location with
  | .ref ref => some (pairKey ref.container ref.key)
  | _ => none

section References
variable {refs : RefMap} {records : List FileLocation} {location : FileLocation} {k : String}

theorem getElem?_addReference :
    (addReference refs location)[k]? =
      if referenceKey? location = some k then some (location.fileId, location.fileSource)
      else refs[k]? := by
  unfold addReference referenceKey?
  cases physicalRef location with
  | ref ref => simp [Std.ExtTreeMap.getElem?_insert]
  | incomplete => simp
  | notText => simp

/-- Whatever the map has comes from a record that was read. -/
theorem getElem?_addReferences {v : String × String}
    (h : (records.foldl addReference refs)[k]? = some v) :
    refs[k]? = some v ∨ ∃ location ∈ records, referenceKey? location = some k ∧
      v = (location.fileId, location.fileSource) := by
  induction records generalizing refs with
  | nil => exact .inl h
  | cons location records ih =>
    rcases ih h with hrefs | ⟨l, hl, hkey, hv⟩
    · rw [getElem?_addReference] at hrefs
      split_ifs at hrefs with hkey
      · exact .inr ⟨location, List.mem_cons_self, hkey, (Option.some.inj hrefs).symm⟩
      · exact .inl hrefs
    · exact .inr ⟨l, List.mem_cons_of_mem _ hl, hkey, hv⟩

/-- A record that was read has its key in the map, and no key is lost. -/
theorem isSome_addReferences (h : (refs[k]?).isSome = true ∨
      ∃ location ∈ records, referenceKey? location = some k) :
    ((records.foldl addReference refs)[k]?).isSome = true := by
  induction records generalizing refs with
  | nil => simpa using h
  | cons location records ih =>
    apply ih
    rw [getElem?_addReference]
    by_cases hkey : referenceKey? location = some k
    · simp [hkey]
    · rw [if_neg hkey]
      rcases h with hrefs | ⟨l, hl, hkey'⟩
      · exact .inl hrefs
      · rcases List.mem_cons.mp hl with rfl | hl
        · exact absurd hkey' hkey
        · exact .inr ⟨l, hl, hkey'⟩

end References

/-- The loop of `ReferencedRefs`, for at most `pages` pages of 500. -/
def referencedRefsFrom (partition : String) : Nat → Int → RefMap → Action RefMap
  | 0, _, _ => throw .diverged
  | pages + 1, offset, refs => do
    let page ← Action.tryResult
      (← Action.ask (.locations (.list partition { limit := 500, offset })))
    let refs := page.records.foldl addReference refs
    let offset := offset + page.records.length
    if page.records.isEmpty || page.total ≤ offset then return refs
    else referencedRefsFrom partition pages offset refs

/-- `ReferencedRefs` -/
def referencedRefs (pages : Nat) (partition : String) : Action RefMap :=
  referencedRefsFrom partition pages 0 ∅

/-- The listings of a container, page by page: `entry` handles each entry in turn. -/
def forEachEntry (store : StoreId) (container : String)
    (entry : GcReport → ListEntry → Action GcReport) : Nat → String → GcReport → Action GcReport
  | 0, _, _ => throw .diverged
  | pages + 1, token, report => do
    match ← Action.ask (.blobs store (.list container "" token 500)) with
    | .error _ => return report.addError
    | .ok page =>
      let report ← page.entries.foldlM entry report
      if page.continuationToken = "" then return report
      else forEachEntry store container entry pages page.continuationToken report

/-- A temporary object in a listing: it goes when it is old enough. -/
def collectTempEntry (options : GcOptions) (store : StoreId) (container partition : String)
    (cutoff : Int) (report : GcReport) (entry : ListEntry) : Action GcReport :=
  if cutoff < entry.lastModifiedEpochSeconds then
    pure { report with tmpSkippedTooYoung := report.tmpSkippedTooYoung + 1 }
  else
    deleteCandidate options store { container, key := entry.key } entry.key false partition
      { report with tmpRemoved := report.tmpRemoved + 1 }

/-- One entry of the staging scan. -/
def collectStagingEntry (options : GcOptions) (store : StoreId) (container partition : String)
    (refs : RefMap) (cutoff : Int) (report : GcReport) (entry : ListEntry) : Action GcReport :=
  if isTempKey entry.key then
    collectTempEntry options store container partition cutoff report entry
  else if cutoff < entry.lastModifiedEpochSeconds then
    pure { report with skippedTooYoung := report.skippedTooYoung + 1 }
  else
    let ref : ObjectRef := { container, key := entry.key }
    match refs[pairKey container entry.key]? with
    | none => deleteCandidate options store ref entry.key false partition report
    | some (fileId, fileSource) => do
      if ← hasMetadataRecord partition fileSource then
        return { report with skippedHasRecord := report.skippedHasRecord + 1 }
      else deleteCandidate options store ref fileId true partition report

/-- One entry of the orphan scan. -/
def collectOrphanEntry (options : GcOptions) (store : StoreId) (container partition : String)
    (refs : RefMap) (cutoff : Int) (report : GcReport) (entry : ListEntry) : Action GcReport :=
  if isTempKey entry.key then
    collectTempEntry options store container partition cutoff report entry
  else if refs.contains (pairKey container entry.key) then pure report
  else if cutoff < entry.lastModifiedEpochSeconds then
    pure { report with skippedTooYoung := report.skippedTooYoung + 1 }
  else
    deleteCandidate options store { container, key := entry.key } entry.key false partition report

/-- The two scans: the container of a zone, the reference map, then every object listed. -/
def scanZone (pages : Nat) (partition : String) (zone : StorageZone) (store : StoreId)
    (entry : String → RefMap → GcReport → ListEntry → Action GcReport) (report : GcReport) :
    Action GcReport := do
  match ← containerFor partition zone with
  | .error _ => return report.addError
  | .ok container =>
    match ← Action.attempt (referencedRefs pages partition) with
    | .error _ => return report.addError
    | .ok refs => forEachEntry store container (entry container refs) pages "" report

/-- `CollectExpiredStaging` -/
def collectExpiredStaging (pages : Nat) (partition : String) (options : GcOptions)
    (staging : StoreId) (nowSeconds : Int) (report : GcReport) : Action GcReport :=
  scanZone pages partition .staging staging (fun container refs =>
    collectStagingEntry options staging container partition refs
      (nowSeconds - options.stagingTtlHours * 3600)) report

/-- `CollectOrphanObjects` -/
def collectOrphanObjects (pages : Nat) (partition : String) (options : GcOptions)
    (persistent : StoreId) (nowSeconds : Int) (report : GcReport) : Action GcReport :=
  scanZone pages partition .persistent persistent (fun container refs =>
    collectOrphanEntry options persistent container partition refs
      (nowSeconds - options.orphanGraceHours * 3600)) report

/-- The sweep of one store's own container. -/
def sweepTempFiles (partition : String) (options : GcOptions) (cutoff : Int) (store : StoreId)
    (zone : StorageZone) (report : GcReport) : Action GcReport := do
  match ← containerFor partition zone with
  | .error _ => return report.addError
  | .ok container =>
    match ← Action.ask (.blobs store (.removeTempFiles container cutoff options.dryRun)) with
    | .error _ => return report.addError
    | .ok swept =>
      return { report with
        tmpRemoved := report.tmpRemoved + swept.removed
        tmpSkippedTooYoung := report.tmpSkippedTooYoung + swept.skippedTooYoung
        tmpSkippedUnknownMtime := report.tmpSkippedUnknownMtime + swept.skippedUnknownMtime }

/-- The stages of a run that holds the mutex. -/
def gcStages (pages : Nat) (instanceId partition : String) (options : GcOptions) :
    Action GcReport := do
  if partition = "" then Action.fail (err .invalidArgument "GC 必须指定 partition")
  if options.claimLimit ≤ 0 then Action.fail (err .invalidArgument "claim_limit 必须 > 0")
  let staging ← resolveStore "无法解析 staging 存储：" .staging
  let persistent ← resolveStore "无法解析 persistent 存储：" .persistent
  let nowSeconds ← Action.ask .nowEpochSeconds
  let report ← collectExpiredLeases instanceId partition options staging persistent nowSeconds
    { dryRun := options.dryRun }
  let report ←
    if options.requireLeaseExpiry then pure report
    else collectExpiredStaging pages partition options staging nowSeconds report
  let report ← collectOrphanObjects pages partition options persistent nowSeconds report
  let cutoff := nowSeconds - options.stagingTtlHours * 3600
  let report ← sweepTempFiles partition options cutoff staging .staging report
  sweepTempFiles partition options cutoff persistent .persistent report
where
  resolveStore (message : String) (zone : StorageZone) : Action StoreId := do
    match ← Action.ask (.forPartition partition zone) with
    | .ok store => return store
    | .error e => Action.fail (err .unavailable (message ++ e.message))

/-- `GcTask::Run`: one run at a time in each task. -/
def runGc (pages : Nat) (instanceId partition : String) (options : GcOptions) :
    Action GcReport := do
  if ← Action.ask (.runMutex (.tryLock instanceId)) then
    (gcStages pages instanceId partition options).destructing
      (Action.ask (.runMutex (.unlock instanceId)))
  else Action.fail (err .unavailable "GC 已在运行（上一轮尚未结束），请稍后重试")

end FileService.App
