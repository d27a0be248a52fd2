import FileService.Safety.DryRun

/-!
# The leases in a run of the collector

Whatever its options, a run makes a single call on the leases: it claims the
expired ones. All its other calls leave the leases and the clock as they are.
-/
namespace FileService.Safety.LeaseStage
open FileService.Common FileService.Domain FileService.Interaction FileService.App
open FileService.Infra FileService.Domain.World FileService.Safety.DryRun

/-- Calls that touch neither the leases nor the clock, and draw no identifier. -/
def Leaseless : Port → Prop
  | .leases _ | .renewer _ | .sleepFor _ | .newUuidNoDash => False
  | _ => True

/-- Every call of the action is leaseless. -/
abbrev Silent {α : Type} (x : Domain.Action α) : Prop :=
  Reports (fun _ _ => True) Leaseless False (fun _ => True) x

section Silence
variable {α β : Type} {x : Domain.Action α} {op : Port} {options : GcOptions} {store : StoreId}
variable {partition : String} {staging persistent : StoreId} {report : GcReport}

theorem Silent.of_reports {Q : α → Prop} (h : Reports (fun _ _ => True) Leaseless False Q x) :
    Silent x :=
  h.imp fun htruthful _ _ => htruthful.elim

theorem Silent.to_reports {Q : α → Prop} (h : Silent x) :
    Reports (fun _ _ => True) Leaseless False Q x :=
  h.imp fun htruthful _ _ => htruthful.elim

theorem silent_pure (a : α) : Silent (pure a) := reports_pure False.elim

theorem silent_fail (e : Error) : Silent (Action.fail e : Domain.Action α) := reports_throw id

theorem Silent.bind {f : α → Domain.Action β} (hx : Silent x) (hf : ∀ a, Silent (f a)) :
    Silent (x >>= f) :=
  reports_bind hx fun a _ => hf a

theorem silent_ask (h : Leaseless op) : Silent (Action.ask op) :=
  (reports_call h).imp fun _ _ _ => trivial

theorem silent_setting {d : Deployment} {w : World} :
    Setting d w (fun _ _ => True) Leaseless False where
  allowed op hop := by
    cases op <;> first
      | exact False.elim hop
      | trivial
  answered htruthful := htruthful.elim

theorem silent_hasMetadataRecord (fileSource : String) :
    Silent (hasMetadataRecord partition fileSource) := by
  unfold hasMetadataRecord
  split_ifs
  · exact silent_pure _
  · exact Silent.bind (silent_ask trivial) fun _ => silent_pure _

theorem silent_deleteCandidate (ref : ObjectRef) (fileId : String) (deleteLocation : Bool) :
    Silent (deleteCandidate options store ref fileId deleteLocation partition report) := by
  unfold deleteCandidate
  split_ifs with hdry hlocation
  · exact silent_pure _
  · refine Silent.bind (silent_ask trivial) fun removed => ?_
    cases removed with
    | error e => exact silent_pure _
    | ok u =>
      refine Silent.bind (silent_ask trivial) fun deleted => ?_
      cases deleted <;> exact silent_pure _
  · refine Silent.bind (silent_ask trivial) fun removed => ?_
    cases removed <;> exact silent_pure _

theorem silent_collectTempEntry (container : String) (cutoff : Int) (entry : ListEntry) :
    Silent (collectTempEntry options store container partition cutoff report entry) := by
  unfold collectTempEntry
  split_ifs
  · exact silent_pure _
  · exact silent_deleteCandidate ..

theorem silent_collectOrphanEntry (container : String) (refs : RefMap) (cutoff : Int)
    (entry : ListEntry) :
    Silent (collectOrphanEntry options store container partition refs cutoff report entry) := by
  unfold collectOrphanEntry
  split_ifs
  · exact silent_collectTempEntry ..
  · exact silent_pure _
  · exact silent_pure _
  · exact silent_deleteCandidate ..

theorem silent_collectStagingEntry (container : String) (refs : RefMap) (cutoff : Int)
    (entry : ListEntry) :
    Silent (collectStagingEntry options store container partition refs cutoff report entry) := by
  unfold collectStagingEntry
  split_ifs
  · exact silent_collectTempEntry ..
  · exact silent_pure _
  · dsimp only
    cases refs[pairKey container entry.key]? with
    | none => exact silent_deleteCandidate ..
    | some found =>
      refine (silent_hasMetadataRecord found.2).bind fun known => ?_
      cases known with
      | true => exact silent_pure _
      | false => exact silent_deleteCandidate ..

theorem silent_resolveLease (lease : Lease) : Silent (resolveLease partition lease) := by
  unfold resolveLease
  by_cases hid : lease.fileId = ""
  case' pos =>
    rw [if_pos hid]
    apply Silent.bind (silent_pure none)
    intro byId
  case' neg =>
    rw [if_neg hid]
    refine Silent.bind (silent_ask trivial) fun found => ?_
    apply Silent.bind (silent_pure found.toOption)
    intro byId
  all_goals
    cases byId with
    | some location => exact silent_pure _
    | none =>
      dsimp only
      split_ifs
      · exact silent_pure _
      · exact Silent.bind (silent_ask trivial) fun _ => silent_pure _

theorem silent_collectLease (lease : Lease) :
    Silent (collectLease partition options staging persistent report lease) := by
  refine (silent_resolveLease lease).bind fun found => ?_
  cases found with
  | none => exact silent_pure _
  | some location =>
    refine (silent_hasMetadataRecord location.fileSource).bind fun known => ?_
    cases known with
    | true => exact silent_pure _
    | false =>
      have href : Silent (objectRefFromLocation location) := by
        unfold objectRefFromLocation
        split
        · exact silent_pure _
        · exact silent_fail _
        · exact reports_throw id
      refine (Silent.of_reports (reports_attempt href)).bind fun ref => ?_
      cases ref with
      | error e => exact silent_pure _
      | ok ref => exact silent_deleteCandidate ..

theorem silent_collectLeases (leases : List Lease) (report : GcReport) :
    Silent (collectLeases partition options staging persistent leases report) := by
  induction leases generalizing report with
  | nil => exact silent_pure _
  | cons lease leases ih => exact (silent_collectLease lease).bind fun report => ih report

theorem silent_sweepTempFiles (cutoff : Int) (zone : StorageZone) :
    Silent (sweepTempFiles partition options cutoff store zone report) := by
  have hcontainer : Silent (containerFor partition zone) :=
    Silent.bind (silent_ask trivial) fun _ => silent_pure _
  refine hcontainer.bind fun container => ?_
  cases container with
  | error e => exact silent_pure _
  | ok container =>
    refine Silent.bind (silent_ask trivial) fun swept => ?_
    cases swept <;> exact silent_pure _

/-- The stage of the leases claims, and all its other calls are silent. -/
theorem collectExpiredLeases_eq (instanceId partition : String) (options : GcOptions)
    (staging persistent : StoreId) (nowSeconds : Int) (report : GcReport) : ∃ rest,
      collectExpiredLeases instanceId partition options staging persistent nowSeconds report =
        Action.ask (.leases (.claimExpired partition options.claimLimit instanceId)) >>= rest ∧
      ∀ reply, Silent (rest reply) := by
  refine ⟨_, rfl, fun reply => ?_⟩
  cases reply with
  | error e => exact silent_pure _
  | ok claimed =>
    dsimp only
    split_ifs
    · exact Silent.bind (silent_pure _) fun _ => silent_collectLeases ..
    · refine Silent.bind (silent_ask trivial) fun reclaimed => ?_
      cases reclaimed <;> exact Silent.bind (silent_pure _) fun _ => silent_collectLeases ..

/-- What follows the claim makes no further call on the leases. -/
theorem silent_scans (d : Deployment) (w : World) (pages : Nat) (nowSeconds : Int)
    (report : GcReport) :
    Silent (scans pages partition options staging persistent nowSeconds report) := by
  have hzone : ∀ {zone store report} {entry : String → RefMap → GcReport → ListEntry →
      Domain.Action GcReport}, (∀ c refs report e, Silent (entry c refs report e)) →
      Silent (scanZone pages partition zone store entry report) := fun hentry =>
    .of_reports (reports_scanZone (g := fun _ _ _ => none) (silent_setting (d := d) (w := w))
      (fun c refs report e => (hentry c refs report e).to_reports) False.elim False.elim)
  have hrest : ∀ report, Silent (do
      let report ← collectOrphanObjects pages partition options persistent nowSeconds report
      let cutoff := nowSeconds - options.stagingTtlHours * 3600
      let report ← sweepTempFiles partition options cutoff staging .staging report
      sweepTempFiles partition options cutoff persistent .persistent report) := fun report =>
    (hzone fun _ _ _ _ => silent_collectOrphanEntry ..).bind fun _ =>
      (silent_sweepTempFiles ..).bind fun _ => silent_sweepTempFiles ..
  unfold scans
  dsimp only
  split_ifs
  · exact hrest report
  · exact (hzone fun _ _ _ _ => silent_collectStagingEntry ..).bind hrest

end Silence

section Runs
variable {d : Deployment} {w w' s s' : World} {faults : Faults} {op : Port} {r : op.Reply}
variable {α : Type} {x : Domain.Action α} {pages : Nat} {partition instanceId : String}
variable {options : GcOptions} {t : List (Performed ports World)} {out : Except Exit GcReport}

/-- The leases and the clock of another state. -/
def SameLeases (w s : World) : Prop := s.leases = w.leases ∧ s.nowMillis = w.nowMillis

theorem exec_leaseless (hop : Leaseless op) (h : Exec d faults s op r s') : SameLeases s s' := by
  have hrenewer : ∀ call, op ≠ .renewer call := by
    rintro call rfl
    exact hop
  have happly : ∀ uuid, SameLeases s (s.apply d uuid op).2 := by
    intro uuid
    cases op with
    | metadata call => cases hb : d.backend <;> simp only [apply, hb] <;> exact ⟨rfl, rfl⟩
    | leases call => exact False.elim hop
    | renewer call => exact False.elim hop
    | sleepFor millis => exact False.elim hop
    | newUuidNoDash => exact False.elim hop
    | _ => exact ⟨rfl, rfl⟩
  rcases h.outcome hrenewer with ⟨-, -, rfl⟩ | ⟨uuid, -, rfl⟩ | ⟨-, -, rfl⟩
  · exact ⟨rfl, rfl⟩
  · exact happly uuid
  · exact happly ""

theorem Silent.ensures (hx : Silent x) (w : World) : Action.Ensures (Exec d faults)
    (SameLeases w) x (fun _ => SameLeases w) fun _ => SameLeases w := by
  intro s t out s' hs hperforms
  have hend := (Program.Relies.performed hx
    (fun s op r s' hop (hs : SameLeases w s) hexec =>
      ⟨trivial, (exec_leaseless hop hexec).1.trans hs.1,
        (exec_leaseless hop hexec).2.trans hs.2⟩) hperforms hs).1
  cases out <;> exact hend

theorem ensures_ask {E : Exit → World → Prop} (hop : Leaseless op) :
    Action.Ensures (Exec d faults) (SameLeases w) (Action.ask op) (fun _ => SameLeases w) E :=
  Action.ensures_call fun _ _ _ hs hexec =>
    ⟨(exec_leaseless hop hexec).1.trans hs.1, (exec_leaseless hop hexec).2.trans hs.2⟩

/-- The state after a claim of the expired leases. -/
def afterClaim (instanceId partition : String) (limit : Int) (w : World) : World :=
  { w with leases := (w.leases.claimExpired w.nowMillis partition limit instanceId).2 }

theorem ensures_claimExpired (limit : Int) : Action.Ensures (Exec d .none) (SameLeases w)
    (Action.ask (.leases (.claimExpired partition limit instanceId)))
    (fun _ => SameLeases (afterClaim instanceId partition limit w))
    fun _ => SameLeases (afterClaim instanceId partition limit w) := by
  apply Action.ensures_call
  intro s r s' hs hexec
  rcases hexec.outcome (by simp) with ⟨-, hfault, -⟩ | ⟨uuid, -, rfl⟩ | ⟨-, hfault, -⟩
  · exact hfault.elim
  · refine ⟨?_, hs.2⟩
    simp only [apply, leaseCall, afterClaim, hs.1, hs.2]
  · exact hfault.elim

theorem ensures_collectExpiredLeases (staging persistent : StoreId) (nowSeconds : Int)
    (report : GcReport) : Action.Ensures (Exec d .none) (SameLeases w)
      (collectExpiredLeases instanceId partition options staging persistent nowSeconds report)
      (fun _ => SameLeases (afterClaim instanceId partition options.claimLimit w))
      fun _ => SameLeases (afterClaim instanceId partition options.claimLimit w) := by
  obtain ⟨rest, heq, hrest⟩ :=
    collectExpiredLeases_eq instanceId partition options staging persistent nowSeconds report
  rw [heq]
  exact (ensures_claimExpired options.claimLimit).bind fun reply => (hrest reply).ensures _

/-- A store is always found. -/
theorem ensures_resolveStore (message : String) (zone : StorageZone) {E : Exit → World → Prop} :
    Action.Ensures (Exec d .none) (SameLeases w) (gcStages.resolveStore partition message zone)
      (fun _ => SameLeases w) E := by
  have hask : Action.Ensures (Exec d .none) (SameLeases w) (Action.ask (.forPartition partition zone))
      (fun r s => r = .ok (d.store partition zone) ∧ SameLeases w s) E := by
    apply Action.ensures_call
    intro s r s' hs hexec
    rcases hexec.outcome (by simp) with ⟨-, hfault, -⟩ | ⟨uuid, rfl, rfl⟩ | ⟨-, hfault, -⟩
    · exact hfault.elim
    · exact ⟨rfl, hs⟩
    · exact hfault.elim
  apply hask.bind
  intro reply
  apply Action.Ensures.of_fact fun s hs => hs.1
  rintro rfl
  exact Action.ensures_pure fun s hs => hs.2

theorem ensures_gcStages (pages : Nat) (hpartition : partition ≠ "") (hlimit : 0 < options.claimLimit) :
    Action.Ensures (Exec d .none) (SameLeases w) (gcStages pages instanceId partition options)
      (fun _ => SameLeases (afterClaim instanceId partition options.claimLimit w))
      fun _ => SameLeases (afterClaim instanceId partition options.claimLimit w) := by
  rw [gcStages_eq, if_neg hpartition, if_neg (by omega)]
  apply Action.Ensures.bind (ensures_resolveStore _ _)
  intro staging
  apply Action.Ensures.bind (ensures_resolveStore _ _)
  intro persistent
  have hreads : Leaseless .nowEpochSeconds := trivial
  apply (ensures_ask hreads).bind
  intro nowSeconds
  apply (ensures_collectExpiredLeases staging persistent nowSeconds _).bind
  intro report
  exact (silent_scans d w pages nowSeconds report).ensures _

/-- What a run leaves of the leases: it has claimed the expired ones. -/
theorem performs_runGc_leases (hpartition : partition ≠ "") (hlimit : 0 < options.claimLimit)
    (hfree : instanceId ∉ w.running)
    (h : (runGc pages instanceId partition options).run.Performs (Exec d .none) w t out w') :
    SameLeases (afterClaim instanceId partition options.claimLimit w) w' := by
  obtain ⟨hrunning, -⟩ | ⟨-, w₁, rest, huntouched, hrest⟩ := performs_runGc h
  · exact absurd hrunning hfree
  have hunlock : ∀ v : World, Program.Ensures (Exec d .none) (SameLeases v)
      (Action.ask (.runMutex (.unlock instanceId))).run fun _ => SameLeases v := by
    intro v
    have hreads : Leaseless (.runMutex (.unlock instanceId)) := trivial
    exact Program.Ensures.mono ((silent_ask hreads).ensures v) (fun _ hs => hs) fun out s hs => by
      cases out <;> exact hs
  have hstages := Domain.Action.Ensures.destructing (ensures_gcStages pages hpartition hlimit)
    (fun _ => hunlock (afterClaim instanceId partition options.claimLimit w))
    fun _ => hunlock _
  have hend := hstages w₁ rest out w' ⟨by rw [huntouched], by rw [huntouched]⟩ hrest
  cases out <;> exact hend

end Runs

end FileService.Safety.LeaseStage
