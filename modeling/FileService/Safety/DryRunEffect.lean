import FileService.Domain.Schedule
import FileService.Safety.LeaseStage

/-!
# When a dry run has no effect

A dry run without an expired lease leaves everything untouched and reports what
a real run would delete. One that claims a lease has moved it to its instance,
with a later expiry, and may have removed the claiming rows of its source.
-/
namespace FileService.Safety.DryRun
open FileService.Common FileService.Domain FileService.Interaction FileService.App
open FileService.Infra FileService.Domain.World FileService.Safety.LeaseStage

section Claims
variable {d : Deployment} {w w' s : World} {instanceId partition : String} {options : GcOptions}

/-- A claim of an expired lease changes its expiry. -/
theorem afterClaim_leases_ne {limit : Int} (hlimit : 0 < limit)
    (hsome : w.leases.expired w.nowMillis partition ≠ []) :
    (afterClaim instanceId partition limit w).leases ≠ w.leases := by
  obtain ⟨⟨k, lease⟩, rest, hexpired⟩ := List.exists_cons_of_ne_nil hsome
  have hlease : (k, lease) ∈ w.leases.expired w.nowMillis partition := by
    rw [hexpired]
    exact List.mem_cons_self
  obtain ⟨hfound, -, hdue⟩ := InMemoryLeaseRepository.mem_expired.mp hlease
  have hselected : k ∈ (w.leases.selected w.nowMillis partition limit).map Prod.fst := by
    obtain ⟨n, hn⟩ : ∃ n, limit.toNat = n + 1 := ⟨limit.toNat - 1, by omega⟩
    simp [InMemoryLeaseRepository.selected, hexpired, hn]
  intro hsame
  have hafter := w.leases.getElem?_claimExpired w.nowMillis partition limit instanceId k
  rw [if_pos hselected, hfound] at hafter
  have hclaimed : some lease = some (InMemoryLeaseRepository.heldBy instanceId w.nowMillis lease) := by
    rw [← hfound, ← Option.map_some, ← hafter]
    exact congrArg (fun repo : InMemoryLeaseRepository => repo.leases[k]?) hsame.symm
  have hexpires := congrArg Lease.expiresAtEpochMillis (Option.some.inj hclaimed)
  simp only [InMemoryLeaseRepository.heldBy] at hexpires
  omega

theorem claimedLeases_eq_nil (hnone : w.leases.expired w.nowMillis partition = []) :
    claimedLeases instanceId partition options w = [] := by
  simp [claimedLeases, InMemoryLeaseRepository.claimExpired_fst, InMemoryLeaseRepository.selected,
    hnone]

/-- Calls that can always be done. -/
def Doable (op : Port) : Prop := op ≠ .newUuidNoDash

theorem doable_of_leaseless {op : Port} (hop : Leaseless op) : Doable op := by
  rintro rfl
  exact hop

/-- Every call of a dry run can be done. -/
theorem dryRun_performs (d : Deployment) (w : World) (pages : Nat) (instanceId : String)
    (hdry : options.dryRun = true) (hpartition : partition ≠ "") (hlimit : 0 < options.claimLimit) :
    ∃ t out w', (runGc pages instanceId partition options).run.Performs (Exec d .none) w t out w' := by
  have hdone : ∀ (s : World) (op : Port), Doable op → ∃ r s', Exec d .none s op r s' :=
    fun s op hop => ⟨_, _, .done "" fun h => absurd h hop⟩
  have hsetting : Setting d w (fun _ _ => True) Doable False :=
    ⟨fun op hop => doable_of_leaseless ((silent_setting (d := d) (w := w)).allowed op hop),
      False.elim⟩
  have hleases : ∀ staging persistent nowSeconds report,
      Reports (fun _ _ => True) Doable False (Adds report [])
        (collectExpiredLeases instanceId partition options staging persistent nowSeconds report) := by
    intro staging persistent nowSeconds report
    obtain ⟨rest, heq, hrest⟩ :=
      collectExpiredLeases_eq instanceId partition options staging persistent nowSeconds report
    rw [heq]
    have hclaim : Doable (.leases (.claimExpired partition options.claimLimit instanceId)) := by
      rintro ⟨⟩
    exact reports_bind (reports_call hclaim) fun reply _ =>
      Program.Relies.allowing (hrest reply).to_reports fun _ => doable_of_leaseless
  have hstages : Reports (fun _ _ => True) Doable False (fun _ => True)
      (gcStages pages instanceId partition options) :=
    (reports_gcStages hsetting hdry hpartition hlimit False.elim hleases).imp fun _ _ _ => trivial
  have hlocked := reports_destructing hstages (reports_unlock hsetting instanceId)
  have hlock : Doable (.runMutex (.tryLock instanceId)) := by
    rintro ⟨⟩
  have hrun : Reports (fun _ _ => True) Doable False (fun _ => True)
      (runGc pages instanceId partition options) := by
    refine reports_bind (reports_call hlock) fun acquired _ => ?_
    cases acquired with
    | true => exact hlocked
    | false => exact reports_throw id
  exact Program.Relies.exists_performs hrun hdone

/-- Whatever calls fail, nothing is touched, and a complete run without failures reports the
candidates. -/
def Effectless (d : Deployment) (instanceId partition : String) (options : GcOptions)
    (w : World) : Prop :=
  (∀ faults pages t out w', (runGc pages instanceId partition options).run.Performs
    (Exec d faults) w t out w' → Untouched w w') ∧
  (partition ≠ "" → 0 < options.claimLimit → instanceId ∉ w.running →
    ∀ pages t out w', roundsFor d w partition ≤ pages →
      (runGc pages instanceId partition options).run.Performs (Exec d .none) w t out w' →
        ∃ report, out = .ok report ∧
          ∀ id, id ∈ report.deletedFileIds ↔ Candidate d instanceId partition options w id)

/-- A dry run is without effect exactly where it has no lease to claim. -/
theorem dryRun_effectless_iff (hdry : options.dryRun = true) :
    Effectless d instanceId partition options w ↔
      ¬ClaimsLease instanceId partition options w := by
  constructor
  · rintro ⟨huntouched, -⟩ ⟨hpartition, hlimit, hfree, hsome⟩
    obtain ⟨t, out, w', hrun⟩ := dryRun_performs d w 0 instanceId hdry hpartition hlimit
    have hclaimed := performs_runGc_leases hpartition hlimit hfree hrun
    have hsame : w'.leases = w.leases := by
      rw [huntouched .none 0 t out w' hrun]
    exact afterClaim_leases_ne hlimit hsome (hclaimed.1.symm.trans hsame)
  · intro hclaims
    constructor
    · intro faults pages t out w' hrun
      exact (dryRun_untouched False hdry hclaims False.elim False.elim hrun).1
    · intro hpartition hlimit hfree pages t out w' hpages hrun
      have hnone : w.leases.expired w.nowMillis partition = [] := by
        by_contra hsome
        exact hclaims ⟨hpartition, hlimit, hfree, hsome⟩
      obtain ⟨report, rfl, hreport⟩ := (dryRun_untouched True hdry hclaims
        (fun _ _ => ⟨id, id⟩) (fun _ => hpages) hrun).2 trivial hpartition hlimit hfree
      refine ⟨report, rfl, fun id => ?_⟩
      rw [hreport]
      exact mem_reports (claimedLeases_eq_nil hnone)

end Claims

/-- A dry run where the location records and the objects are, but no lease. -/
theorem dryRun_effectless_staged : Effectless sampleDeployment "gc" "p" {} stagedWorld :=
  (dryRun_effectless_iff rfl).mpr (by decide +kernel)

/-- A registration in progress whose lease has just expired. -/
def expiredWorld : World where
  metadata := (InMemoryMetadataRepository.claimForWrite {} 0 "p" { sampleRecord with id := "p:r" }).2
  leases := (InMemoryLeaseRepository.acquire {} 0 "p" sampleSource "i" 60000).2
  nowMillis := 60000

/-- What can be seen of a dry run: it is complete, the lease cannot be acquired any more, and the
claiming row is gone. -/
def seenAfterDryRun (out : Except Exit GcReport) (w' : World) : Bool :=
  match out with
  | .ok report => report.dryRun &&
      (w'.leases.acquire w'.nowMillis "p" sampleSource "i" 60000).1.isOk == false &&
      (w'.metadata.row "p" sampleSource).isNone
  | .error _ => false

theorem exists_seenAfterDryRun : ∃ t out w',
    (runGc 2 "gc" "p" {}).run.Performs (Exec sampleDeployment .none) expiredWorld t out w' ∧
      seenAfterDryRun out w' = true := by
  have hcarried : ((runGc 2 "gc" "p" {}).run.carryOut
      (choose sampleDeployment .none (.done "")) expiredWorld).any
        (fun last => seenAfterDryRun last.1 last.2) = true := by decide +kernel
  obtain ⟨⟨out, w'⟩, hlast, hseen⟩ := (Option.any_eq_true _ _).mp hcarried
  obtain ⟨t, hrun⟩ := Program.performs_of_carryOut
    (fun w _ _ _ hstep => exec_of_choose sampleDeployment .none hstep) hlast
  exact ⟨t, out, w', hrun, hseen⟩

/-- A complete dry run takes an expired lease away from those who could acquire it, and removes
the claiming row of its source. -/
theorem dryRun_takes_lease : ¬Effectless sampleDeployment "gc" "p" {} expiredWorld ∧
    (expiredWorld.leases.acquire expiredWorld.nowMillis "p" sampleSource "i" 60000).1.isOk = true ∧
    (expiredWorld.metadata.row "p" sampleSource).isSome = true ∧
    ∃ t out w',
      (runGc 2 "gc" "p" {}).run.Performs (Exec sampleDeployment .none) expiredWorld t out w' ∧
        seenAfterDryRun out w' = true := by
  have hrow : (expiredWorld.metadata.row "p" sampleSource).isSome = true := by decide +kernel
  refine ⟨?_, by decide +kernel, hrow, exists_seenAfterDryRun⟩
  rintro ⟨huntouched, -⟩
  obtain ⟨t, out, w', hrun, hseen⟩ := exists_seenAfterDryRun
  have hmetadata : w'.metadata = expiredWorld.metadata := by
    rw [huntouched .none 2 t out w' hrun]
  cases out with
  | error exit => cases hseen
  | ok report =>
    simp only [seenAfterDryRun, Bool.and_eq_true, hmetadata, Option.isNone_iff_eq_none] at hseen
    rw [hseen.2] at hrow
    cases hrow

end FileService.Safety.DryRun
