import FileService.App.GcTask
import FileService.Domain.Effects
import FileService.Interaction.Reliance

/-!
# What the scans of a dry run report

The scans of a dry run only read. In a truthful run, in which no call fails and
nothing else moves the state, the ids they report are those of the entries that
a real run would delete.
-/
namespace FileService.Safety.DryRun
open FileService.Common FileService.Domain FileService.Interaction FileService.App
open FileService.Infra

/-- Calls of the collector that only read, and the release of its mutex. -/
def Reads : Port → Prop
  | .metadata (.getLatestByFileSource ..) => True
  | .locations (.find ..) | .locations (.findByFileSource ..) | .locations (.list ..) => True
  | .blobs _ (.list ..) | .blobs _ (.removeTempFiles _ _ true) => True
  | .forPartition .. | .partitionConfig _ | .nowEpochSeconds => True
  | .runMutex (.unlock _) => True
  | _ => False

/-- Where the calls of a dry run stand: reads are allowed, and in a truthful run they are
answered as in the state `w`. -/
structure Setting (d : Deployment) (w : World) (R : Assumption ports) (K : Port → Prop)
    (truthful : Prop) : Prop where
  allowed : ∀ op, Reads op → K op
  answered : truthful → ∀ op r, Reads op → R op r → r = (w.apply d "" op).1

/-- Every call is allowed, and a truthful run returns a value that satisfies `Q`. -/
def Reports {α : Type} (R : Assumption ports) (K : Port → Prop) (truthful : Prop) (Q : α → Prop)
    (x : Domain.Action α) : Prop :=
  x.run.Relies R K fun out => truthful → ∃ a, out = .ok a ∧ Q a

section Rules
variable {R : Assumption ports} {K : Port → Prop} {truthful : Prop} {α β : Type}
variable {Q : α → Prop} {Q' : β → Prop} {x : Domain.Action α} {d : Deployment} {w : World}

theorem reports_pure {a : α} (h : truthful → Q a) :
    Reports R K truthful Q (pure a : Domain.Action α) :=
  fun htruthful => ⟨a, rfl, h htruthful⟩

theorem reports_throw {e : Exit} (h : ¬truthful) :
    Reports R K truthful Q (throw e : Domain.Action α) :=
  fun htruthful => absurd htruthful h

theorem reports_bind {f : α → Domain.Action β} (hx : Reports R K truthful Q x)
    (hf : ∀ a, (truthful → Q a) → Reports R K truthful Q' (f a)) :
    Reports R K truthful Q' (x >>= f) := by
  refine Program.relies_bind hx fun out hout => ?_
  cases out with
  | ok a =>
    refine hf a fun htruthful => ?_
    obtain ⟨a', ha, hQ⟩ := hout htruthful
    cases ha
    exact hQ
  | error e =>
    intro htruthful
    obtain ⟨a, ha, -⟩ := hout htruthful
    cases ha

theorem reports_call {op : Port} (hop : K op) :
    Reports R K truthful (R op) (Action.ask op) :=
  ⟨hop, fun r hr _ => ⟨r, rfl, hr⟩⟩

theorem Setting.ask (h : Setting d w R K truthful) {op : Port} (hop : Reads op) :
    Reports R K truthful (fun r => r = (w.apply d "" op).1) (Action.ask op) :=
  ⟨h.allowed op hop, fun r hr htruthful => ⟨r, rfl, h.answered htruthful op r hop hr⟩⟩

theorem Reports.imp {Q₂ : α → Prop} (hx : Reports R K truthful Q x)
    (hQ : truthful → ∀ a, Q a → Q₂ a) : Reports R K truthful Q₂ x :=
  Program.Relies.imp hx fun out hout htruthful => by
    obtain ⟨a, ha, h⟩ := hout htruthful
    exact ⟨a, ha, hQ htruthful a h⟩

theorem reports_tryResult {r : Result α} (h : truthful → ∃ a, r = .ok a ∧ Q a) :
    Reports R K truthful Q (Action.tryResult r) := by
  cases r with
  | ok a =>
    refine reports_pure fun htruthful => ?_
    obtain ⟨a', ha, hQ⟩ := h htruthful
    cases ha
    exact hQ
  | error e =>
    refine reports_throw fun htruthful => ?_
    obtain ⟨a, ha, -⟩ := h htruthful
    cases ha

theorem reports_attempt (hx : Reports R K truthful Q x) :
    Reports R K truthful (fun out => ∃ a, out = .ok a ∧ Q a) (Action.attempt x) := by
  refine Program.relies_bind hx fun out hout htruthful => ?_
  obtain ⟨a, rfl, hQ⟩ := hout htruthful
  exact ⟨.ok a, rfl, a, rfl, hQ⟩

theorem reports_destructing {destructor : Domain.Action Unit} (hx : Reports R K truthful Q x)
    (hd : Reports R K truthful (fun _ => True) destructor) :
    Reports R K truthful Q (Action.destructing x destructor) := by
  refine Program.relies_bind hx fun out hout => ?_
  match out, hout with
  | .ok a, hout => exact Program.relies_bind hd fun _ _ => hout
  | .error (.error e), hout => exact Program.relies_bind hd fun _ _ => hout
  | .error (.exception what), hout => exact Program.relies_bind hd fun _ _ => hout
  | .error .diverged, hout => exact hout

/-- A loop whose rounds report one after the other. -/
theorem reports_foldlM {γ : Type} {f : GcReport → γ → Domain.Action GcReport}
    {g : γ → Option String}
    (hf : ∀ report c, Reports R K truthful
      (fun out => out.deletedFileIds = report.deletedFileIds ++ (g c).toList) (f report c))
    (cs : List γ) (report : GcReport) : Reports R K truthful
      (fun out => out.deletedFileIds = report.deletedFileIds ++ cs.filterMap g)
      (cs.foldlM f report) := by
  induction cs generalizing report with
  | nil => exact reports_pure fun _ => by simp
  | cons c cs ih =>
    rw [List.foldlM_cons]
    refine reports_bind (hf report c) fun report' hreport' => (ih report').imp fun htruthful out hout => ?_
    rw [hout, hreport' htruthful, List.append_assoc]
    cases hg : g c <;> simp [hg]

end Rules

/-! ## What is reported -/

/-- A lookup by file source finds a record. -/
def registered (d : Deployment) (w : World) (partition fileSource : String) : Bool :=
  fileSource ≠ "" && (World.latest d w partition fileSource).isOk

/-- The physical references of all location records of a partition. -/
def references (w : World) (partition : String) : RefMap :=
  (w.locations.matched partition {}).foldl addReference ∅

/-- An entry is reported under an id once it is old enough. -/
def whenOld (cutoff : Int) (entry : ListEntry) (id : String) : Option String :=
  if cutoff < entry.lastModifiedEpochSeconds then none else some id

/-- What the orphan scan reports of an entry. -/
def orphanOf (refs : RefMap) (container : String) (cutoff : Int) (entry : ListEntry) :
    Option String :=
  if isTempKey entry.key then whenOld cutoff entry entry.key
  else if refs.contains (pairKey container entry.key) then none
  else whenOld cutoff entry entry.key

/-- What the staging scan reports of an entry. -/
def stagingOf (d : Deployment) (w : World) (partition : String) (refs : RefMap)
    (container : String) (cutoff : Int) (entry : ListEntry) : Option String :=
  if isTempKey entry.key then whenOld cutoff entry entry.key
  else
    match refs[pairKey container entry.key]? with
    | none => whenOld cutoff entry entry.key
    | some (fileId, fileSource) =>
      if registered d w partition fileSource then none else whenOld cutoff entry fileId

/-- The entries of a container, as listings show them. -/
def entriesOf (w : World) (store : StoreId) (container : String) : List ListEntry :=
  ((w.stores store).containers.entries container).map InMemoryBlobStore.entryOf

section Scans
variable {R : Assumption ports} {K : Port → Prop} {truthful : Prop} {d : Deployment} {w : World}
variable {partition : String} {options : GcOptions} {report : GcReport} {store : StoreId}

/-- The report has grown by these ids. -/
def Adds (report : GcReport) (ids : List String) (out : GcReport) : Prop :=
  out.deletedFileIds = report.deletedFileIds ++ ids

theorem reports_hasMetadataRecord (h : Setting d w R K truthful) (fileSource : String) :
    Reports R K truthful (fun b => b = registered d w partition fileSource)
      (hasMetadataRecord partition fileSource) := by
  unfold hasMetadataRecord
  split_ifs with hempty
  · exact reports_pure fun _ => by simp [registered, hempty]
  · refine reports_bind (h.ask trivial) fun found hfound => reports_pure fun htruthful => ?_
    rw [hfound htruthful]
    simp [registered, hempty, World.latest]

theorem reports_deleteCandidate (hdry : options.dryRun = true) (ref : ObjectRef) (fileId : String)
    (deleteLocation : Bool) : Reports R K truthful (Adds report [fileId])
      (deleteCandidate options store ref fileId deleteLocation partition report) := by
  unfold deleteCandidate
  rw [if_pos hdry]
  exact reports_pure fun _ => rfl

theorem reports_collectTempEntry (hdry : options.dryRun = true) (container : String)
    (cutoff : Int) (entry : ListEntry) :
    Reports R K truthful (Adds report (whenOld cutoff entry entry.key).toList)
      (collectTempEntry options store container partition cutoff report entry) := by
  unfold collectTempEntry whenOld
  split_ifs
  · exact reports_pure fun _ => by simp [Adds]
  · exact (reports_deleteCandidate hdry ..).imp fun _ _ hout => hout

theorem reports_collectOrphanEntry (hdry : options.dryRun = true) (container : String)
    (refs : RefMap) (cutoff : Int) (entry : ListEntry) :
    Reports R K truthful (Adds report (orphanOf refs container cutoff entry).toList)
      (collectOrphanEntry options store container partition refs cutoff report entry) := by
  unfold collectOrphanEntry orphanOf
  split_ifs with htemp hknown hyoung
  · exact reports_collectTempEntry hdry ..
  · exact reports_pure fun _ => by simp [Adds]
  · exact reports_pure fun _ => by simp [Adds, whenOld, hyoung]
  · simp only [whenOld, hyoung, if_false]
    exact reports_deleteCandidate hdry ..

theorem reports_collectStagingEntry (h : Setting d w R K truthful) (hdry : options.dryRun = true)
    (container : String) (refs : RefMap) (cutoff : Int) (entry : ListEntry) :
    Reports R K truthful (Adds report (stagingOf d w partition refs container cutoff entry).toList)
      (collectStagingEntry options store container partition refs cutoff report entry) := by
  unfold collectStagingEntry stagingOf
  split_ifs with htemp hyoung
  · exact reports_collectTempEntry hdry ..
  · refine reports_pure fun _ => ?_
    cases refs[pairKey container entry.key]? <;> simp [Adds, whenOld, hyoung]
  · dsimp only
    simp only [whenOld, hyoung, if_false]
    cases refs[pairKey container entry.key]? with
    | none => exact reports_deleteCandidate hdry ..
    | some found =>
      obtain ⟨fileId, fileSource⟩ := found
      refine reports_bind (reports_hasMetadataRecord h fileSource) fun known hknown => ?_
      cases known with
      | true =>
        refine reports_pure fun htruthful => ?_
        simp [Adds, ← hknown htruthful]
      | false =>
        refine (reports_deleteCandidate hdry ..).imp fun htruthful out hout => ?_
        simpa [← hknown htruthful] using hout

/-- Every entry of the container is gone through, page by page. -/
theorem reports_forEachEntry (h : Setting d w R K truthful) {container : String}
    {entry : GcReport → ListEntry → Domain.Action GcReport} {g : ListEntry → Option String}
    (hentry : ∀ report e, Reports R K truthful (Adds report (g e).toList) (entry report e))
    (pages : Nat) (token : String) (report : GcReport)
    (hpages : truthful → ((w.stores store).listed container "" token).length < pages) :
    Reports R K truthful (Adds report ((((w.stores store).listed container "" token).map
        InMemoryBlobStore.entryOf).filterMap g))
      (forEachEntry store container entry pages token report) := by
  induction pages generalizing token report with
  | zero => exact reports_throw fun htruthful => absurd (hpages htruthful) (Nat.not_lt_zero _)
  | succ pages ih =>
    refine reports_bind (h.ask trivial) fun reply hreply => ?_
    have hreply' : truthful → reply = (w.stores store).list container "" token 500 := hreply
    cases reply with
    | error e =>
      refine reports_pure fun htruthful => ?_
      have hlist := hreply' htruthful
      unfold InMemoryBlobStore.list at hlist
      rw [if_neg (by decide)] at hlist
      split at hlist
      · rename_i hnone
        have hempty : (w.stores store).listed container "" token = [] := by
          simp [InMemoryBlobStore.listed, Buckets.entries, hnone]
        simp [Adds, hempty, GcReport.addError]
      · dsimp only at hlist
        split_ifs at hlist
    | ok page =>
      refine reports_bind (reports_foldlM hentry page.entries report) fun report' hreport' => ?_
      have hpage := fun htruthful =>
        InMemoryBlobStore.list_page (show 0 < 500 by decide) (hreply' htruthful).symm
      split_ifs with htoken
      · refine reports_pure fun htruthful => ?_
        obtain ⟨hentries, ⟨hlast, -⟩ | ⟨-, e, -, htoken', hkey⟩⟩ := hpage htruthful
        · rw [List.take_of_length_le hlast] at hentries
          rw [← hentries]
          exact hreport' htruthful
        · exact absurd (htoken'.symm.trans htoken) hkey
      · have hnext : truthful →
            ((w.stores store).listed container "" token).length < pages + 1 ∧
              500 < ((w.stores store).listed container "" token).length ∧
              (w.stores store).listed container "" page.continuationToken =
                ((w.stores store).listed container "" token).drop 500 := by
          intro htruthful
          obtain ⟨-, ⟨-, hend⟩ | ⟨hlong, e, hlast, htoken', -⟩⟩ := hpage htruthful
          · exact absurd hend htoken
          · rw [htoken']
            exact ⟨hpages htruthful, hlong, InMemoryBlobStore.listed_next hlast⟩
        have hpages' : truthful →
            ((w.stores store).listed container "" page.continuationToken).length < pages := by
          intro htruthful
          obtain ⟨hlength, hlong, hrest⟩ := hnext htruthful
          rw [hrest, List.length_drop]
          omega
        refine (ih page.continuationToken report' hpages').imp fun htruthful out hout => ?_
        unfold Adds at hout ⊢
        rw [hout, hreport' htruthful, (hpage htruthful).1, (hnext htruthful).2.2,
          List.append_assoc, ← List.filterMap_append, ← List.map_append, List.take_append_drop]

/-- All pages of the location records are read. -/
theorem reports_referencedRefsFrom (h : Setting d w R K truthful) (pages offset : Nat)
    (refs : RefMap) (hrefs : truthful →
      refs = ((w.locations.matched partition {}).take offset).foldl addReference ∅)
    (hpages : truthful → (w.locations.matched partition {}).length - offset < pages) :
    Reports R K truthful (fun refs => refs = references w partition)
      (referencedRefsFrom partition pages offset refs) := by
  induction pages generalizing offset refs with
  | zero => exact reports_throw fun htruthful => absurd (hpages htruthful) (Nat.not_lt_zero _)
  | succ pages ih =>
    refine reports_bind (h.ask trivial) fun reply hreply => ?_
    have hreply' : truthful → reply = _ :=
      fun htruthful => (hreply htruthful).trans (w.locations.list_window partition offset)
    refine reports_bind (reports_tryResult
      (Q := fun page : LocationPage =>
        page.records = ((w.locations.matched partition {}).drop offset).take 500 ∧
          page.total = (w.locations.matched partition {}).length)
      fun htruthful => ⟨_, hreply' htruthful, rfl, rfl⟩) fun page hpage => ?_
    have hoffset : (offset : Int) + page.records.length =
        ((offset + page.records.length : Nat) : Int) := by simp
    have hlength : truthful → page.records.length =
        min 500 ((w.locations.matched partition {}).length - offset) := by
      intro htruthful
      rw [(hpage htruthful).1, List.length_take, List.length_drop]
    have hread : truthful → page.records.foldl addReference refs =
        ((w.locations.matched partition {}).take (offset + page.records.length)).foldl
          addReference ∅ := by
      intro htruthful
      rw [hrefs htruthful, (hpage htruthful).1, ← List.foldl_append, List.take_add]
      congr 2
      rw [List.length_take, List.take_eq_take_min]
    simp only [hoffset]
    split_ifs with hend
    · refine reports_pure fun htruthful => ?_
      have hlength := hlength htruthful
      rw [hread htruthful, List.take_of_length_le, references]
      simp only [Bool.or_eq_true, List.isEmpty_iff_length_eq_zero, decide_eq_true_eq,
        (hpage htruthful).2] at hend
      omega
    · refine ih _ _ hread fun htruthful => ?_
      have hlength := hlength htruthful
      have hpages := hpages htruthful
      simp only [Bool.or_eq_true, List.isEmpty_iff_length_eq_zero, decide_eq_true_eq,
        (hpage htruthful).2] at hend
      omega

/-- The container of a zone, as the partition registry has it. -/
def containerIn (d : Deployment) (partition : String) (zone : StorageZone) : Result String :=
  containerOf partition zone (World.partitionConfig d.registry partition)

theorem reports_containerFor (h : Setting d w R K truthful) (zone : StorageZone) :
    Reports R K truthful (fun c => c = containerIn d partition zone)
      (containerFor partition zone) := by
  refine reports_bind (h.ask trivial) fun config hconfig => reports_pure fun htruthful => ?_
  rw [hconfig htruthful]
  rfl

/-- What a scan of the container of a zone reports. -/
def scanned (d : Deployment) (w : World) (partition : String) (zone : StorageZone)
    (store : StoreId) (g : RefMap → String → ListEntry → Option String) : List String :=
  match containerIn d partition zone with
  | .error _ => []
  | .ok container => (entriesOf w store container).filterMap (g (references w partition) container)

/-- Rounds that are enough for every loop over pages. -/
def roundsFor (d : Deployment) (w : World) (partition : String) : Nat :=
  (w.locations.matched partition {}).length + 1 +
    ([StorageZone.staging, .persistent].map fun zone =>
      match containerIn d partition zone with
      | .error _ => 0
      | .ok container => (entriesOf w (d.store partition zone) container).length).sum

theorem entries_lt_roundsFor {zone : StorageZone} {container : String}
    (hcontainer : containerIn d partition zone = .ok container) :
    (entriesOf w (d.store partition zone) container).length < roundsFor d w partition := by
  cases zone <;> simp only [roundsFor, List.map_cons, List.map_nil, hcontainer, List.sum_cons,
    List.sum_nil] <;> omega

theorem reports_scanZone (h : Setting d w R K truthful) {zone : StorageZone} {pages : Nat}
    {entry : String → RefMap → GcReport → ListEntry → Domain.Action GcReport}
    {g : RefMap → String → ListEntry → Option String}
    (hentry : ∀ container refs report e, Reports R K truthful
      (Adds report (g refs container e).toList) (entry container refs report e))
    (hstore : truthful → store = d.store partition zone)
    (hpages : truthful → roundsFor d w partition ≤ pages) :
    Reports R K truthful (Adds report (scanned d w partition zone store g))
      (scanZone pages partition zone store entry report) := by
  refine reports_bind (reports_containerFor h zone) fun container hcontainer => ?_
  cases container with
  | error e =>
    refine reports_pure fun htruthful => ?_
    simp [Adds, scanned, ← hcontainer htruthful, GcReport.addError]
  | ok container =>
    have hrefs : Reports R K truthful (fun refs => refs = references w partition)
        (referencedRefs pages partition) :=
      reports_referencedRefsFrom h pages 0 ∅ (fun _ => rfl) fun htruthful => by
        have := hpages htruthful
        unfold roundsFor at this
        omega
    refine reports_bind (reports_attempt hrefs) fun refs hrefs => ?_
    cases refs with
    | error e =>
      refine reports_pure fun htruthful => ?_
      obtain ⟨refs, hok, -⟩ := hrefs htruthful
      cases hok
    | ok refs =>
      have hlisted : ((w.stores store).listed container "" "").map InMemoryBlobStore.entryOf =
          entriesOf w store container := by
        rw [InMemoryBlobStore.listed_start, entriesOf]
      refine (reports_forEachEntry h (hentry container refs) pages "" report fun htruthful => ?_).imp
        fun htruthful out hout => ?_
      · have hlt := entries_lt_roundsFor (w := w) (hcontainer htruthful).symm
        rw [← hstore htruthful, ← hlisted, List.length_map] at hlt
        exact Nat.lt_of_lt_of_le hlt (hpages htruthful)
      · obtain ⟨refs', hok, hrefs'⟩ := hrefs htruthful
        cases hok
        rw [hlisted, hrefs'] at hout
        simpa only [scanned, ← hcontainer htruthful] using hout

theorem reports_sweepTempFiles (h : Setting d w R K truthful) (hdry : options.dryRun = true)
    (cutoff : Int) (zone : StorageZone) : Reports R K truthful (Adds report [])
      (sweepTempFiles partition options cutoff store zone report) := by
  refine reports_bind (reports_containerFor h zone) fun container _ => ?_
  cases container with
  | error e => exact reports_pure fun _ => by simp [Adds, GcReport.addError]
  | ok container =>
    have hreads : Reads (.blobs store (.removeTempFiles container cutoff true)) := trivial
    rw [hdry]
    refine reports_bind (h.ask hreads) fun swept _ => ?_
    cases swept with
    | error e => exact reports_pure fun _ => by simp [Adds, GcReport.addError]
    | ok swept => exact reports_pure fun _ => by simp [Adds]

end Scans

/-! ## The stages -/

/-- The stages after the one of the leases. -/
def scans (pages : Nat) (partition : String) (options : GcOptions) (staging persistent : StoreId)
    (nowSeconds : Int) (report : GcReport) : Domain.Action GcReport := do
  let report ←
    if options.requireLeaseExpiry then pure report
    else collectExpiredStaging pages partition options staging nowSeconds report
  let report ← collectOrphanObjects pages partition options persistent nowSeconds report
  let cutoff := nowSeconds - options.stagingTtlHours * 3600
  let report ← sweepTempFiles partition options cutoff staging .staging report
  sweepTempFiles partition options cutoff persistent .persistent report

theorem gcStages_eq (pages : Nat) (instanceId partition : String) (options : GcOptions) :
    gcStages pages instanceId partition options = (do
      if partition = "" then Action.fail (err .invalidArgument "GC 必须指定 partition")
      if options.claimLimit ≤ 0 then Action.fail (err .invalidArgument "claim_limit 必须 > 0")
      let staging ← gcStages.resolveStore partition "无法解析 staging 存储：" .staging
      let persistent ← gcStages.resolveStore partition "无法解析 persistent 存储：" .persistent
      let nowSeconds ← Action.ask .nowEpochSeconds
      let report ← collectExpiredLeases instanceId partition options staging persistent nowSeconds
        { dryRun := options.dryRun }
      scans pages partition options staging persistent nowSeconds report) := rfl

/-- What the staging scan of a dry run reports: nothing where expired leases are required. -/
def stagingReport (d : Deployment) (w : World) (partition : String) (options : GcOptions)
    (staging : StoreId) (nowSeconds : Int) : List String :=
  if options.requireLeaseExpiry then []
  else scanned d w partition .staging staging fun refs container =>
    stagingOf d w partition refs container (nowSeconds - options.stagingTtlHours * 3600)

/-- What the orphan scan of a dry run reports. -/
def orphanReport (d : Deployment) (w : World) (partition : String) (options : GcOptions)
    (persistent : StoreId) (nowSeconds : Int) : List String :=
  scanned d w partition .persistent persistent fun refs container =>
    orphanOf refs container (nowSeconds - options.orphanGraceHours * 3600)

section Stages
variable {R : Assumption ports} {K : Port → Prop} {truthful : Prop} {d : Deployment} {w : World}
variable {partition instanceId : String} {options : GcOptions} {report : GcReport} {pages : Nat}

theorem reports_scans (h : Setting d w R K truthful) (hdry : options.dryRun = true)
    (staging persistent : StoreId) (nowSeconds : Int) (report : GcReport)
    (hstaging : truthful → staging = d.store partition .staging)
    (hpersistent : truthful → persistent = d.store partition .persistent)
    (hpages : truthful → roundsFor d w partition ≤ pages) : Reports R K truthful
      (Adds report (stagingReport d w partition options staging nowSeconds ++
        orphanReport d w partition options persistent nowSeconds))
      (scans pages partition options staging persistent nowSeconds report) := by
  have hrest : ∀ report₁, (truthful → Adds report
        (stagingReport d w partition options staging nowSeconds) report₁) → Reports R K truthful
      (Adds report (stagingReport d w partition options staging nowSeconds ++
        orphanReport d w partition options persistent nowSeconds))
      (do
        let report ← collectOrphanObjects pages partition options persistent nowSeconds report₁
        let cutoff := nowSeconds - options.stagingTtlHours * 3600
        let report ← sweepTempFiles partition options cutoff staging .staging report
        sweepTempFiles partition options cutoff persistent .persistent report) := by
    intro report₁ h₁
    refine reports_bind (reports_scanZone h (fun _ _ _ _ => reports_collectOrphanEntry hdry ..)
      hpersistent hpages) fun report₂ h₂ => ?_
    refine reports_bind (reports_sweepTempFiles h hdry ..) fun report₃ h₃ => ?_
    refine (reports_sweepTempFiles h hdry ..).imp fun htruthful out hout => ?_
    unfold Adds orphanReport at *
    rw [hout, h₃ htruthful, h₂ htruthful, h₁ htruthful]
    simp only [List.append_nil, List.append_assoc]
  unfold scans
  dsimp only
  split_ifs with hexpiry
  · exact hrest report fun _ => by simp [Adds, stagingReport, hexpiry]
  · refine reports_bind (reports_scanZone h (fun _ _ _ _ => reports_collectStagingEntry h hdry ..)
      hstaging hpages) fun report₁ h₁ => hrest report₁ fun htruthful => ?_
    simpa only [stagingReport, hexpiry, if_false, Bool.false_eq_true] using h₁ htruthful

theorem reports_resolveStore (h : Setting d w R K truthful) (message : String)
    (zone : StorageZone) : Reports R K truthful (fun store => store = d.store partition zone)
      (gcStages.resolveStore partition message zone) := by
  refine reports_bind (h.ask trivial) fun store hstore => ?_
  have hstore' : truthful → store = .ok (d.store partition zone) := hstore
  cases store with
  | error e => exact reports_throw fun htruthful => by cases hstore' htruthful
  | ok store => exact reports_pure fun htruthful => Except.ok.inj (hstore' htruthful)

/-- The stages of a dry run, if the stage of the leases reports nothing. -/
theorem reports_gcStages (h : Setting d w R K truthful) (hdry : options.dryRun = true)
    (hpartition : partition ≠ "") (hlimit : 0 < options.claimLimit)
    (hpages : truthful → roundsFor d w partition ≤ pages)
    (hleases : ∀ staging persistent nowSeconds report, Reports R K truthful (Adds report [])
      (collectExpiredLeases instanceId partition options staging persistent nowSeconds report)) :
    Reports R K truthful (fun report => report.deletedFileIds =
        stagingReport d w partition options (d.store partition .staging) w.nowSeconds ++
          orphanReport d w partition options (d.store partition .persistent) w.nowSeconds)
      (gcStages pages instanceId partition options) := by
  rw [gcStages_eq, if_neg hpartition, if_neg (by omega)]
  refine reports_bind (reports_resolveStore h ..) fun staging hstaging => ?_
  refine reports_bind (reports_resolveStore h ..) fun persistent hpersistent => ?_
  refine reports_bind (h.ask trivial) fun now hnow => ?_
  refine reports_bind (hleases ..) fun report₁ h₁ => ?_
  refine (reports_scans h hdry staging persistent now report₁ hstaging hpersistent hpages).imp
    fun htruthful out hout => ?_
  have hnow' : now = w.nowSeconds := hnow htruthful
  rw [hout, h₁ htruthful, hstaging htruthful, hpersistent htruthful, hnow']
  simp

end Stages

end FileService.Safety.DryRun
