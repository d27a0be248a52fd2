import FileService.Domain.Schedule
import FileService.Safety.DryRunReports

/-!
# Dry runs of the garbage collection

A dry run deletes no candidate, and its scans only read. It still claims the
expired leases and reclaims the claiming rows of their sources, so it is without
effect exactly when there is no lease to claim.
-/
namespace FileService.Safety.DryRun
open FileService.Common FileService.Domain FileService.Interaction FileService.App
open FileService.Infra FileService.Domain.World

variable {d : Deployment} {w w' s s' : World} {faults : Faults} {op : Port} {r : op.Reply}
variable {partition instanceId : String} {options : GcOptions}

/-- Everything is as it was, but for the mutex of the run. -/
def Untouched (w s : World) : Prop := s = { w with running := s.running }

theorem Untouched.refl (w : World) : Untouched w w := rfl

/-- A call that reads is answered as in the state before, and leaves it untouched. -/
theorem apply_reads (uuid : String) (hop : Reads op) (hs : Untouched w s) :
    (s.apply d uuid op).1 = (w.apply d "" op).1 ∧ Untouched w (s.apply d uuid op).2 := by
  rw [hs]
  cases op with
  | metadata call =>
    cases hb : d.backend <;> cases call <;> first
      | exact False.elim hop
      | exact ⟨by simp only [apply, hb, localCall], by simp only [apply, hb]; rfl⟩
  | locations call =>
    cases call <;> first
      | exact False.elim hop
      | exact ⟨rfl, rfl⟩
  | blobs store call =>
    cases call with
    | list c pre token limit =>
      refine ⟨rfl, ?_⟩
      simp only [apply, blobCall, Function.update_eq_self]
      rfl
    | removeTempFiles c t dry =>
      cases dry with
      | true =>
        refine ⟨rfl, ?_⟩
        simp only [apply, blobCall, InMemoryBlobStore.removeTempFiles, if_true,
          Function.update_eq_self]
        rfl
      | false => exact False.elim hop
    | _ => exact False.elim hop
  | forPartition p z => exact ⟨rfl, rfl⟩
  | partitionConfig p => exact ⟨rfl, rfl⟩
  | nowEpochSeconds => exact ⟨rfl, rfl⟩
  | runMutex call =>
    cases call with
    | tryLock i => exact False.elim hop
    | unlock i => exact ⟨rfl, rfl⟩
  | _ => exact False.elim hop

/-! ## Runs that claim nothing -/

/-- The run gets as far as the leases, and there is one to claim. -/
def ClaimsLease (instanceId partition : String) (options : GcOptions) (w : World) : Prop :=
  partition ≠ "" ∧ 0 < options.claimLimit ∧ instanceId ∉ w.running ∧
    w.leases.expired w.nowMillis partition ≠ []

instance : Decidable (ClaimsLease instanceId partition options w) := by
  unfold ClaimsLease
  infer_instance

/-- The replies are those of `w`; where the run is not truthful, calls may also fail. -/
def Answers (d : Deployment) (w : World) (truthful : Prop) : Assumption ports := fun op r =>
  r = (w.apply d "" op).1 ∨ ¬truthful ∧ ∃ e, op.failed e = some r

/-- Reads, and claims of expired leases where there are none. -/
def Harmless (w : World) (partition : String) (op : Port) : Prop :=
  Reads op ∨ w.leases.expired w.nowMillis partition = [] ∧
    ∃ limit claimant, op = .leases (.claimExpired partition limit claimant)

/-- With no lease to claim, a claim is answered by the empty list and changes nothing. -/
theorem apply_claimExpired (hnone : w.leases.expired w.nowMillis partition = [])
    (hs : Untouched w s) (uuid : String) (limit : Int) (claimant : String) :
    (s.apply d uuid (.leases (.claimExpired partition limit claimant))).1 = .ok [] ∧
      (s.apply d uuid (.leases (.claimExpired partition limit claimant))).2 = s := by
  have hnone' : s.leases.expired s.nowMillis partition = [] := by
    rw [hs]
    exact hnone
  simp only [apply, leaseCall, InMemoryLeaseRepository.claimExpired, hnone', List.take_nil,
    List.map_nil, List.foldl_nil]
  split_ifs <;> exact ⟨rfl, rfl⟩

theorem exec_untouched {truthful : Prop}
    (hfaults : truthful → ∀ op, ¬faults.lost op ∧ ¬faults.unacknowledged op)
    (hop : Harmless w partition op) (hs : Untouched w s) (hexec : Exec d faults s op r s') :
    Answers d w truthful op r ∧ Untouched w s' := by
  have happly : ∀ uuid, (s.apply d uuid op).1 = (w.apply d "" op).1 ∧
      Untouched w (s.apply d uuid op).2 := by
    intro uuid
    rcases hop with hreads | ⟨hnone, limit, claimant, rfl⟩
    · exact apply_reads uuid hreads hs
    · have hclaim := apply_claimExpired (d := d) hnone hs uuid limit claimant
      have hclaim' := apply_claimExpired (d := d) hnone (Untouched.refl w) "" limit claimant
      rw [hclaim.1, hclaim.2, hclaim'.1]
      exact ⟨rfl, hs⟩
  have hrenewer : ∀ call, op ≠ .renewer call := by
    rintro call rfl
    rcases hop with hreads | ⟨-, limit, claimant, h⟩
    · exact hreads
    · cases h
  rcases hexec.outcome hrenewer with ⟨hr, hfault, rfl⟩ | ⟨uuid, rfl, rfl⟩ | ⟨hr, hfault, rfl⟩
  · exact ⟨.inr ⟨fun h => (hfaults h op).1 hfault, _, hr⟩, hs⟩
  · exact ⟨.inl (happly uuid).1, (happly uuid).2⟩
  · exact ⟨.inr ⟨fun h => (hfaults h op).2 hfault, _, hr⟩, (happly "").2⟩

/-- The stage of the leases, where there is none to claim. -/
theorem reports_nothingClaimed {truthful : Prop} {staging persistent : StoreId} {nowSeconds : Int}
    {report : GcReport} (hnone : w.leases.expired w.nowMillis partition = []) :
    Reports (Answers d w truthful) (Harmless w partition) truthful (Adds report [])
      (collectExpiredLeases instanceId partition options staging persistent nowSeconds report) := by
  refine ⟨.inr ⟨hnone, _, _, rfl⟩, fun reply hreply => ?_⟩
  have hreply' : ∀ claimed, reply = .ok claimed → claimed = [] := by
    rintro claimed rfl
    rcases hreply with htrue | ⟨-, e, hfailed⟩
    · rw [(apply_claimExpired hnone (Untouched.refl w) "" _ _).1] at htrue
      exact Except.ok.inj htrue
    · cases hfailed
  cases reply with
  | error e =>
    exact fun _ => ⟨_, rfl, by simp [Adds, GcReport.addError]⟩
  | ok claimed =>
    obtain rfl := hreply' claimed rfl
    exact fun _ => ⟨_, rfl, by simp [Adds]⟩

theorem setting_answers (d : Deployment) (w : World) (truthful : Prop) (partition : String) :
    Setting d w (Answers d w truthful) (Harmless w partition) truthful where
  allowed _ hop := .inl hop
  answered htruthful _ _ _ hr := hr.resolve_right fun h => h.1 htruthful

/-- The stages, and then the release of the mutex. -/
abbrev lockedStages (pages : Nat) (instanceId partition : String) (options : GcOptions) :
    Domain.Action GcReport :=
  (gcStages pages instanceId partition options).destructing
    (Action.ask (.runMutex (.unlock instanceId)))

/-- A run is refused because another one is going on, or it goes through its stages. -/
theorem performs_runGc {pages : Nat} {t : List (Performed ports World)}
    {out : Except Exit GcReport}
    (h : (runGc pages instanceId partition options).run.Performs (Exec d faults) w t out w') :
    instanceId ∈ w.running ∧ Untouched w w' ∨ instanceId ∉ w.running ∧ ∃ w₁ rest, Untouched w w₁ ∧
      (lockedStages pages instanceId partition options).run.Performs (Exec d faults) w₁ rest out
        w' := by
  obtain ⟨acquired, w₁, rest, hlock, rfl, hrest⟩ := h
  have hlock' : acquired = decide (instanceId ∉ w.running) ∧ Untouched w w₁ := by
    rcases hlock.outcome (by simp) with ⟨hr, -, -⟩ | ⟨uuid, rfl, rfl⟩ | ⟨hr, -, -⟩
    · cases hr
    · simp only [apply, runMutexCall]
      split_ifs with hrunning
      · exact ⟨by simp [hrunning], rfl⟩
      · exact ⟨by simp [hrunning], rfl⟩
    · cases hr
  obtain ⟨rfl, huntouched⟩ := hlock'
  by_cases hrunning : instanceId ∈ w.running
  · rw [decide_eq_false (not_not.mpr hrunning)] at hrest
    obtain ⟨-, -, rfl⟩ := hrest
    exact .inl ⟨hrunning, huntouched⟩
  · rw [decide_eq_true hrunning] at hrest
    exact .inr ⟨hrunning, w₁, rest, huntouched, hrest⟩

theorem reports_unlock {R : Assumption ports} {K : Port → Prop} {truthful : Prop}
    (h : Setting d w R K truthful) (instanceId : String) :
    Reports R K truthful (fun _ => True) (Action.ask (.runMutex (.unlock instanceId))) := by
  have hreads : Reads (.runMutex (.unlock instanceId)) := trivial
  exact (h.ask hreads).imp fun _ _ _ => trivial

/-- A run without a partition or with a limit of zero is refused before its first stage. -/
theorem reports_refused {R : Assumption ports} {K : Port → Prop} (h : Setting d w R K False)
    (pages : Nat) (instanceId : String) (hinvalid : ¬(partition ≠ "" ∧ 0 < options.claimLimit)) :
    Reports R K False (fun _ => True) (lockedStages pages instanceId partition options) := by
  refine reports_destructing ?_ (reports_unlock h instanceId)
  rw [gcStages_eq]
  by_cases hpartition : partition = ""
  · rw [if_pos hpartition]
    exact False.elim
  · rw [if_neg hpartition, if_pos (not_lt.mp fun hlimit => hinvalid ⟨hpartition, hlimit⟩)]
    exact False.elim

/-- Where there is nothing to claim, a dry run leaves everything untouched, whatever calls fail;
a truthful run with enough rounds returns the report of its scans. -/
theorem dryRun_untouched {pages : Nat} {t : List (Performed ports World)}
    {out : Except Exit GcReport} (truthful : Prop) (hdry : options.dryRun = true)
    (hclaims : ¬ClaimsLease instanceId partition options w)
    (hfaults : truthful → ∀ op, ¬faults.lost op ∧ ¬faults.unacknowledged op)
    (hpages : truthful → roundsFor d w partition ≤ pages)
    (h : (runGc pages instanceId partition options).run.Performs (Exec d faults) w t out w') :
    Untouched w w' ∧ (truthful → partition ≠ "" → 0 < options.claimLimit →
      instanceId ∉ w.running → ∃ report, out = .ok report ∧ report.deletedFileIds =
        stagingReport d w partition options (d.store partition .staging) w.nowSeconds ++
          orphanReport d w partition options (d.store partition .persistent) w.nowSeconds) := by
  rcases performs_runGc h with ⟨hrunning, huntouched⟩ | ⟨hfree, w₁, rest, huntouched, hrest⟩
  · exact ⟨huntouched, fun _ _ _ hfree => absurd hrunning hfree⟩
  by_cases hvalid : partition ≠ "" ∧ 0 < options.claimLimit
  · have hnone : w.leases.expired w.nowMillis partition = [] := by
      by_contra hsome
      exact hclaims ⟨hvalid.1, hvalid.2, hfree, hsome⟩
    have hsetting := setting_answers d w truthful partition
    have hstages : Reports _ _ truthful _ (lockedStages pages instanceId partition options) :=
      reports_destructing (reports_gcStages hsetting hdry hvalid.1 hvalid.2 hpages
        fun _ _ _ _ => reports_nothingClaimed hnone) (reports_unlock hsetting instanceId)
    obtain ⟨hend, hout⟩ := hstages.performed
      (fun _ _ _ _ hop hs hexec => exec_untouched hfaults hop hs hexec) hrest huntouched
    exact ⟨hend, fun htruthful _ _ _ => hout htruthful⟩
  · have hrefused := reports_refused (setting_answers d w False partition) pages instanceId
      hvalid
    obtain ⟨hend, -⟩ := hrefused.performed
      (fun _ _ _ _ hop hs hexec => exec_untouched False.elim hop hs hexec) hrest huntouched
    exact ⟨hend, fun _ hpartition hlimit _ => absurd ⟨hpartition, hlimit⟩ hvalid⟩

/-! ## Candidates -/

/-- A location record of the partition has this reference. -/
def Referenced (w : World) (partition reference : String) : Prop :=
  ∃ location, w.locations.byFileId partition location.fileId = some location ∧
    referenceKey? location = some reference

/-- The container of a zone holds an object with this key, no younger than the cutoff. -/
def OldObject (d : Deployment) (w : World) (partition : String) (zone : StorageZone)
    (container key : String) (cutoff : Int) : Prop :=
  containerIn d partition zone = .ok container ∧
    ∃ o, (w.stores (d.store partition zone)).objectAt container key = some o ∧
      o.lastModifiedEpochSeconds ≤ cutoff

/-- The leases that a claim hands out. -/
def claimedLeases (instanceId partition : String) (options : GcOptions) (w : World) : List Lease :=
  match (w.leases.claimExpired w.nowMillis partition options.claimLimit instanceId).1 with
  | .ok claimed => claimed
  | .error _ => []

/-- The location record of a lease: by file id, else by the lease key as file source. -/
def leaseLocation (w : World) (partition : String) (lease : Lease) : Option FileLocation :=
  (if lease.fileId = "" then none else w.locations.byFileId partition lease.fileId).or
    (w.locations.byFileSource partition (leaseKeyOf lease))

/-- What a real run would delete, by the id it is reported under. -/
inductive Candidate (d : Deployment) (instanceId partition : String) (options : GcOptions)
    (w : World) : String → Prop
  | lease {lease : Lease} {location : FileLocation} {ref : ObjectRef}
      (hclaimed : lease ∈ claimedLeases instanceId partition options w)
      (hlocation : leaseLocation w partition lease = some location)
      (hunregistered : registered d w partition location.fileSource = false)
      (href : physicalRef location = .ref ref) :
      Candidate d instanceId partition options w location.fileId
  | orphan {container key : String}
      (hold : OldObject d w partition .persistent container key
        (w.nowSeconds - options.orphanGraceHours * 3600))
      (hfree : isTempKey key = true ∨ ¬Referenced w partition (pairKey container key)) :
      Candidate d instanceId partition options w key
  | residue {container key : String} (hexpiry : options.requireLeaseExpiry = false)
      (hold : OldObject d w partition .staging container key
        (w.nowSeconds - options.stagingTtlHours * 3600))
      (hfree : isTempKey key = true ∨ ¬Referenced w partition (pairKey container key)) :
      Candidate d instanceId partition options w key
  | unregistered {container key fileId fileSource : String}
      (hexpiry : options.requireLeaseExpiry = false)
      (hold : OldObject d w partition .staging container key
        (w.nowSeconds - options.stagingTtlHours * 3600))
      (htemp : isTempKey key = false)
      (hnamed : (references w partition)[pairKey container key]? = some (fileId, fileSource))
      (hunregistered : registered d w partition fileSource = false) :
      Candidate d instanceId partition options w fileId

/-- The map of references has exactly the references of the location records. -/
theorem references_eq_none {reference : String} :
    (references w partition)[reference]? = none ↔ ¬Referenced w partition reference := by
  rw [← Option.not_isSome_iff_eq_none, not_iff_not]
  constructor
  · intro h
    obtain ⟨v, hv⟩ := Option.isSome_iff_exists.mp h
    rcases getElem?_addReferences hv with hempty | ⟨location, hmem, hkey, -⟩
    · simp at hempty
    · exact ⟨location, (InMemoryLocationRepository.mem_matched.mp hmem).1, hkey⟩
  · rintro ⟨location, hfound, hkey⟩
    exact isSome_addReferences (.inr ⟨location, InMemoryLocationRepository.mem_matched.mpr
      ⟨hfound, by simp [InMemoryLocationRepository.matchesQuery]⟩, hkey⟩)

theorem whenOld_eq_some {cutoff : Int} {entry : ListEntry} {id id' : String} :
    whenOld cutoff entry id = some id' ↔ entry.lastModifiedEpochSeconds ≤ cutoff ∧ id = id' := by
  unfold whenOld
  split_ifs with hyoung
  · simp [hyoung]
  · simp [not_lt.mp hyoung]

theorem orphanOf_eq_some {container : String} {cutoff : Int} {entry : ListEntry} {id : String} :
    orphanOf (references w partition) container cutoff entry = some id ↔
      entry.lastModifiedEpochSeconds ≤ cutoff ∧ entry.key = id ∧ (isTempKey entry.key = true ∨
        ¬Referenced w partition (pairKey container entry.key)) := by
  rw [← references_eq_none, ← Option.not_isSome_iff_eq_none,
    Std.ExtTreeMap.isSome_getElem?_eq_contains]
  unfold orphanOf
  split_ifs with htemp hknown
  · simp [whenOld_eq_some, htemp]
  · simp [htemp, hknown]
  · simp [whenOld_eq_some, hknown]

theorem stagingOf_eq_some {container : String} {cutoff : Int} {entry : ListEntry} {id : String} :
    stagingOf d w partition (references w partition) container cutoff entry = some id ↔
      entry.lastModifiedEpochSeconds ≤ cutoff ∧
        (entry.key = id ∧ (isTempKey entry.key = true ∨
          ¬Referenced w partition (pairKey container entry.key)) ∨
        isTempKey entry.key = false ∧ ∃ fileSource,
          (references w partition)[pairKey container entry.key]? = some (id, fileSource) ∧
            registered d w partition fileSource = false) := by
  rw [← references_eq_none]
  unfold stagingOf
  split_ifs with htemp
  · simp [whenOld_eq_some, htemp]
  · cases hfound : (references w partition)[pairKey container entry.key]? with
    | none => simp [whenOld_eq_some, htemp]
    | some found =>
      obtain ⟨fileId, fileSource⟩ := found
      cases hregistered : registered d w partition fileSource with
      | true => simp [htemp, hregistered]
      | false => simp [whenOld_eq_some, htemp, hregistered]

theorem mem_scanned {zone : StorageZone} {g : RefMap → String → ListEntry → Option String}
    {id : String} : id ∈ scanned d w partition zone (d.store partition zone) g ↔
      ∃ container key o, containerIn d partition zone = .ok container ∧
        (w.stores (d.store partition zone)).objectAt container key = some o ∧
          g (references w partition) container (InMemoryBlobStore.entryOf (key, o)) = some id := by
  unfold scanned
  cases hcontainer : containerIn d partition zone with
  | error e => simp
  | ok container =>
    simp only [entriesOf, List.mem_filterMap, List.mem_map, Prod.exists, Except.ok.injEq,
      Buckets.mem_entries]
    constructor
    · rintro ⟨entry, ⟨key, o, hobject, rfl⟩, hg⟩
      exact ⟨container, key, o, rfl, hobject, hg⟩
    · rintro ⟨_, key, o, rfl, hobject, hg⟩
      exact ⟨_, ⟨key, o, hobject, rfl⟩, hg⟩

/-- Where no lease is claimed, the scans report the candidates. -/
theorem mem_reports (hnone : claimedLeases instanceId partition options w = []) {id : String} :
    id ∈ stagingReport d w partition options (d.store partition .staging) w.nowSeconds ++
        orphanReport d w partition options (d.store partition .persistent) w.nowSeconds ↔
      Candidate d instanceId partition options w id := by
  unfold stagingReport orphanReport
  rw [List.mem_append]
  constructor
  · rintro (hid | hid)
    · split_ifs at hid with hexpiry
      · cases hid
      rw [Bool.not_eq_true] at hexpiry
      obtain ⟨container, key, o, hcontainer, hobject, hentry⟩ := mem_scanned.mp hid
      obtain ⟨hold, ⟨rfl, hfree⟩ | ⟨htemp, fileSource, hnamed, hunregistered⟩⟩ :=
        stagingOf_eq_some.mp hentry
      · exact .residue hexpiry ⟨hcontainer, o, hobject, hold⟩ hfree
      · exact .unregistered hexpiry ⟨hcontainer, o, hobject, hold⟩ htemp hnamed hunregistered
    · obtain ⟨container, key, o, hcontainer, hobject, hentry⟩ := mem_scanned.mp hid
      obtain ⟨hold, rfl, hfree⟩ := orphanOf_eq_some.mp hentry
      exact .orphan ⟨hcontainer, o, hobject, hold⟩ hfree
  · intro hcandidate
    cases hcandidate with
    | lease hclaimed => simp [hnone] at hclaimed
    | orphan hold hfree =>
      obtain ⟨hcontainer, o, hobject, hold⟩ := hold
      exact .inr (mem_scanned.mpr ⟨_, _, o, hcontainer, hobject,
        orphanOf_eq_some.mpr ⟨hold, rfl, hfree⟩⟩)
    | residue hexpiry hold hfree =>
      obtain ⟨hcontainer, o, hobject, hold⟩ := hold
      rw [if_neg (by simp [hexpiry])]
      exact .inl (mem_scanned.mpr ⟨_, _, o, hcontainer, hobject,
        stagingOf_eq_some.mpr ⟨hold, .inl ⟨rfl, hfree⟩⟩⟩)
    | unregistered hexpiry hold htemp hnamed hunregistered =>
      obtain ⟨hcontainer, o, hobject, hold⟩ := hold
      rw [if_neg (by simp [hexpiry])]
      exact .inl (mem_scanned.mpr ⟨_, _, o, hcontainer, hobject,
        stagingOf_eq_some.mpr ⟨hold, .inr ⟨htemp, _, hnamed, hunregistered⟩⟩⟩)

end FileService.Safety.DryRun
