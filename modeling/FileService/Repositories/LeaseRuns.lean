import FileService.Domain.World

/-!
# Who holds a lease

The lease repository over sequences of calls by any instances. A lease is known
by the text key under which it is recorded. Nothing is assumed about the clock.
-/
namespace FileService.Repositories
open FileService.Common FileService.Domain FileService.Infra

/-- The repository after a sequence of calls, each with the time it was made at. -/
def afterLeaseCalls (repo : InMemoryLeaseRepository) (calls : List (Int × LeaseCall)) :
    InMemoryLeaseRepository :=
  calls.foldl (fun repo call => (World.leaseCall call.1 repo call.2).2) repo

/-- The instance is recorded as the owner of a lease that has not expired. -/
def HoldsLease (repo : InMemoryLeaseRepository) (now : Int) (partition key instanceId : String) :
    Prop :=
  ∃ lease, repo.lease partition key = some lease ∧ lease.ownerInstanceId = instanceId ∧
    now < lease.expiresAtEpochMillis

/-- A claim of expired leases returns the one recorded under this text key. -/
def ClaimsLeaseAt (repo : InMemoryLeaseRepository) (now : Int) (call : LeaseCall) (k : String) :
    Prop :=
  ∃ partition limit claimant, call = .claimExpired partition limit claimant ∧
    k ∈ (repo.selected now partition limit).map Prod.fst

/-- The call renews the lease recorded under this text key, or acquires it. -/
def RegrantsLeaseAt (repo : InMemoryLeaseRepository) (now : Int) (call : LeaseCall) (k : String) :
    Prop :=
  match call with
  | .acquire partition key owner ttl =>
    InMemoryLeaseRepository.key partition key = k ∧
      ∃ lease, (repo.acquire now partition key owner ttl).1 = .ok lease
  | .renew partition key owner ttl =>
    InMemoryLeaseRepository.key partition key = k ∧
      (repo.renew now partition key owner ttl).1 = .ok ()
  | _ => False

/-- One of the calls renews or acquires the lease. -/
def RegrantedIn (repo : InMemoryLeaseRepository) (calls : List (Int × LeaseCall)) (k : String) :
    Prop :=
  ∃ past now call rest, calls = past ++ (now, call) :: rest ∧
    RegrantsLeaseAt (afterLeaseCalls repo past) now call k

/-- What keeps instances apart in a sequence of calls. -/
structure LeasesExclusive (repo : InMemoryLeaseRepository) (calls : List (Int × LeaseCall)) :
    Prop where
  /-- There is never more than one holder. -/
  single : ∀ past rest, calls = past ++ rest → ∀ now partition key i j,
    HoldsLease (afterLeaseCalls repo past) now partition key i →
      HoldsLease (afterLeaseCalls repo past) now partition key j → i = j
  /-- No lease is granted while another instance holds it. -/
  granted : ∀ past rest now partition key i ttl lease,
    calls = past ++ (now, .acquire partition key i ttl) :: rest →
      ((afterLeaseCalls repo past).acquire now partition key i ttl).1 = .ok lease →
        ∀ j, j ≠ i → ¬HoldsLease (afterLeaseCalls repo past) now partition key j
  /-- A lease is claimed twice only after a minute, or if it was granted again in between. -/
  apart : ∀ past between rest now now' call call' k,
    calls = past ++ (now, call) :: between ++ (now', call') :: rest →
      ClaimsLeaseAt (afterLeaseCalls repo past) now call k →
        ClaimsLeaseAt (afterLeaseCalls repo (past ++ (now, call) :: between)) now' call' k →
          now + 60000 ≤ now' ∨
            RegrantedIn (afterLeaseCalls repo (past ++ [(now, call)])) between k
  /-- Calls by instances that are not the recorded owner change nothing. -/
  foreign : ∀ past rest now partition key i ttl call,
    calls = past ++ (now, call) :: rest →
      (call = .renew partition key i ttl ∨ call = .release partition key i) →
        (∀ lease, (afterLeaseCalls repo past).lease partition key = some lease →
          lease.ownerInstanceId ≠ i) →
          afterLeaseCalls repo (past ++ [(now, call)]) = afterLeaseCalls repo past

variable {repo : InMemoryLeaseRepository} {now expires : Int} {call : LeaseCall} {k : String}
variable {calls : List (Int × LeaseCall)}

/-- If there is a lease under this text key, it does not expire before that time. -/
def LastsUntil (repo : InMemoryLeaseRepository) (k : String) (expires : Int) : Prop :=
  ∀ lease, repo.leases[k]? = some lease → expires ≤ lease.expiresAtEpochMillis

/-- A call that neither renews nor acquires a lease does not shorten it. -/
theorem LastsUntil.leaseCall (h : LastsUntil repo k expires)
    (hregrant : ¬RegrantsLeaseAt repo now call k) :
    LastsUntil (World.leaseCall now repo call).2 k expires := by
  cases call with
  | acquire partition key owner ttl =>
    obtain ⟨e, heq⟩ | ⟨lease, heq, -, -⟩ := repo.acquire_cases now partition key owner ttl
    · simpa only [World.leaseCall, heq] using h
    · have hkey : InMemoryLeaseRepository.key partition key ≠ k := by
        rintro rfl
        exact hregrant ⟨rfl, lease, by rw [heq]⟩
      intro l hl
      simp only [World.leaseCall, heq, Std.ExtTreeMap.getElem?_insert,
        Std.LawfulEqCmp.compare_eq_iff_eq, if_neg hkey] at hl
      exact h l hl
  | renew partition key owner ttl =>
    obtain ⟨e, heq⟩ | ⟨old, -, -, heq⟩ := repo.renew_cases now partition key owner ttl
    · simpa only [World.leaseCall, heq] using h
    · have hkey : InMemoryLeaseRepository.key partition key ≠ k := by
        rintro rfl
        exact hregrant ⟨rfl, by rw [heq]⟩
      intro l hl
      simp only [World.leaseCall, heq, Std.ExtTreeMap.getElem?_insert,
        Std.LawfulEqCmp.compare_eq_iff_eq, if_neg hkey] at hl
      exact h l hl
  | release partition key owner =>
    obtain ⟨e, heq⟩ | ⟨old, -, -, heq⟩ := repo.release_cases partition key owner
    · simpa only [World.leaseCall, heq] using h
    · intro l hl
      simp only [World.leaseCall, heq, Std.ExtTreeMap.getElem?_erase] at hl
      split_ifs at hl
      exact h l hl
  | claimExpired partition limit claimant =>
    intro l hl
    simp only [World.leaseCall, InMemoryLeaseRepository.getElem?_claimExpired] at hl
    split_ifs at hl with hselected
    · obtain ⟨old, hold, rfl⟩ := Option.map_eq_some_iff.mp hl
      obtain ⟨⟨k', lease⟩, hmem, rfl⟩ := List.mem_map.mp hselected
      obtain ⟨hfound, -, hdue⟩ := InMemoryLeaseRepository.mem_expired.mp
        (InMemoryLeaseRepository.mem_expired_of_mem_selected hmem)
      have hexpires := h lease hfound
      have hheld : old = lease := Option.some.inj (hold.symm.trans hfound)
      rw [hheld]
      simp only [InMemoryLeaseRepository.heldBy]
      omega
    · exact h l hl

theorem afterLeaseCalls_append (repo : InMemoryLeaseRepository) (past rest : List (Int × LeaseCall)) :
    afterLeaseCalls repo (past ++ rest) = afterLeaseCalls (afterLeaseCalls repo past) rest :=
  List.foldl_append

theorem RegrantedIn.cons (h : RegrantedIn (World.leaseCall now repo call).2 calls k) :
    RegrantedIn repo ((now, call) :: calls) k := by
  obtain ⟨past, now', call', rest, rfl, hregrant⟩ := h
  exact ⟨(now, call) :: past, now', call', rest, rfl, hregrant⟩

/-- Nor do any number of such calls. -/
theorem LastsUntil.afterLeaseCalls (h : LastsUntil repo k expires)
    (hregrant : ¬RegrantedIn repo calls k) : LastsUntil (afterLeaseCalls repo calls) k expires := by
  induction calls generalizing repo with
  | nil => exact h
  | cons c calls ih =>
    apply ih
    · exact h.leaseCall fun hc => hregrant ⟨[], c.1, c.2, calls, rfl, hc⟩
    · exact fun hrest => hregrant hrest.cons

/-- A claim holds each lease it returns for a minute. -/
theorem lastsUntil_of_claims (h : ClaimsLeaseAt repo now call k) :
    LastsUntil (World.leaseCall now repo call).2 k (now + 60000) := by
  obtain ⟨partition, limit, claimant, rfl, hselected⟩ := h
  intro l hl
  simp only [World.leaseCall, InMemoryLeaseRepository.getElem?_claimExpired, if_pos hselected] at hl
  obtain ⟨old, -, rfl⟩ := Option.map_eq_some_iff.mp hl
  exact le_rfl

/-- A claim returns a lease only when it has expired. -/
theorem le_of_claims (h : ClaimsLeaseAt repo now call k) (hlasts : LastsUntil repo k expires) :
    expires ≤ now := by
  obtain ⟨partition, limit, claimant, rfl, hselected⟩ := h
  obtain ⟨⟨k', lease⟩, hmem, rfl⟩ := List.mem_map.mp hselected
  obtain ⟨hfound, -, hdue⟩ := InMemoryLeaseRepository.mem_expired.mp
    (InMemoryLeaseRepository.mem_expired_of_mem_selected hmem)
  exact (hlasts lease hfound).trans hdue

theorem holdsLease_unique {partition key i j : String} (hi : HoldsLease repo now partition key i)
    (hj : HoldsLease repo now partition key j) : i = j := by
  obtain ⟨lease, hlease, rfl, -⟩ := hi
  obtain ⟨lease', hlease', rfl, -⟩ := hj
  rw [hlease] at hlease'
  exact congrArg Lease.ownerInstanceId (Option.some.inj hlease')

theorem not_holdsLease_of_granted {partition key i j : String} {ttl : Int} {lease : Lease}
    (h : (repo.acquire now partition key i ttl).1 = .ok lease) :
    ¬HoldsLease repo now partition key j := by
  rintro ⟨old, hold, -, hheld⟩
  obtain ⟨e, heq⟩ | ⟨granted, -, -, hdue⟩ := repo.acquire_cases now partition key i ttl
  · rw [heq] at h
    cases h
  · exact absurd (hdue old hold) (not_le.mpr hheld)

theorem leaseCall_foreign {partition key i : String} {ttl : Int}
    (hcall : call = .renew partition key i ttl ∨ call = .release partition key i)
    (howner : ∀ lease, repo.lease partition key = some lease → lease.ownerInstanceId ≠ i) :
    (World.leaseCall now repo call).2 = repo := by
  rcases hcall with rfl | rfl
  · obtain ⟨e, heq⟩ | ⟨old, hold, hsame, -⟩ := repo.renew_cases now partition key i ttl
    · simp only [World.leaseCall, heq]
    · exact absurd hsame (howner old hold)
  · obtain ⟨e, heq⟩ | ⟨old, hold, hsame, -⟩ := repo.release_cases partition key i
    · simp only [World.leaseCall, heq]
    · exact absurd hsame (howner old hold)

/-- Every sequence of calls on the lease repository keeps instances apart. -/
theorem leases_exclusive (repo : InMemoryLeaseRepository) (calls : List (Int × LeaseCall)) :
    LeasesExclusive repo calls where
  single _ _ _ _ _ _ _ _ := holdsLease_unique
  granted _ _ _ _ _ _ _ _ _ hgranted _ _ := not_holdsLease_of_granted hgranted
  apart past between rest now now' call call' k _ hclaim hclaim' := by
    by_contra hneither
    push Not at hneither
    obtain ⟨hsoon, hregrant⟩ := hneither
    rw [afterLeaseCalls_append] at hregrant hclaim'
    have hlasts := (lastsUntil_of_claims hclaim).afterLeaseCalls hregrant
    exact absurd (le_of_claims hclaim' hlasts) (not_le.mpr hsoon)
  foreign past rest now partition key i ttl call _ hcall howner := by
    rw [afterLeaseCalls_append]
    exact leaseCall_foreign hcall howner

end FileService.Repositories
