import FileService.Domain.Types
import Std.Data.ExtTreeMap.Lemmas

/-!
# The in-memory lease repository

One lease per (partition, file id) text key. Expiry is compared with the clock
at the call; a claim of an expired lease moves it to the claimant and holds it
for a minute.
-/
namespace FileService.Infra
open FileService.Common FileService.Domain

structure InMemoryLeaseRepository where
  leases : Std.ExtTreeMap String Lease := ∅

namespace InMemoryLeaseRepository

def key (partition fileId : String) : String := partition ++ "\x1f" ++ fileId

/-- The lease recorded for a file id, expired or not. -/
def lease (repo : InMemoryLeaseRepository) (partition fileId : String) : Option Lease :=
  repo.leases[key partition fileId]?

def acquire (repo : InMemoryLeaseRepository) (nowMillis : Int)
    (partition fileId ownerInstanceId : String) (ttlMillis : Int) :
    Result Lease × InMemoryLeaseRepository :=
  let granted : Lease :=
    { fileId, ownerInstanceId, expiresAtEpochMillis := nowMillis + ttlMillis }
  let grant := (.ok granted, { leases := repo.leases.insert (key partition fileId) granted })
  match repo.lease partition fileId with
  | some lease =>
    if nowMillis < lease.expiresAtEpochMillis then
      (.error (err .unavailable "租约已被占用"), repo)
    else grant
  | none => grant

def noLease : Error := err .notFound "租约不存在"
def foreignLease : Error := err .permissionDenied "租约属于别的实例"

def renew (repo : InMemoryLeaseRepository) (nowMillis : Int)
    (partition fileId ownerInstanceId : String) (ttlMillis : Int) :
    Result Unit × InMemoryLeaseRepository :=
  match repo.lease partition fileId with
  | none => (.error noLease, repo)
  | some lease =>
    if lease.ownerInstanceId ≠ ownerInstanceId then (.error foreignLease, repo)
    else
      let renewed := { lease with expiresAtEpochMillis := nowMillis + ttlMillis }
      (.ok (), { leases := repo.leases.insert (key partition fileId) renewed })

def release (repo : InMemoryLeaseRepository) (partition fileId ownerInstanceId : String) :
    Result Unit × InMemoryLeaseRepository :=
  match repo.lease partition fileId with
  | none => (.error noLease, repo)
  | some lease =>
    if lease.ownerInstanceId ≠ ownerInstanceId then (.error foreignLease, repo)
    else (.ok (), { leases := repo.leases.erase (key partition fileId) })

/-- The expired leases of a partition, in key order. -/
def expired (repo : InMemoryLeaseRepository) (nowMillis : Int) (partition : String) :
    List (String × Lease) :=
  repo.leases.toList.filter fun (k, lease) =>
    Text.startsWith k (partition ++ "\x1f") && decide (lease.expiresAtEpochMillis ≤ nowMillis)

def heldBy (claimantInstanceId : String) (nowMillis : Int) (lease : Lease) : Lease :=
  { lease with ownerInstanceId := claimantInstanceId, expiresAtEpochMillis := nowMillis + 60000 }

def claimExpired (repo : InMemoryLeaseRepository) (nowMillis : Int) (partition : String)
    (limit : Int) (claimantInstanceId : String) : Result (List Lease) × InMemoryLeaseRepository :=
  if limit ≤ 0 then (.ok [], repo)
  else
    let claimed := ((repo.expired nowMillis partition).take limit.toNat).map fun (k, lease) =>
      (k, heldBy claimantInstanceId nowMillis lease)
    (.ok (claimed.map Prod.snd),
      { leases := claimed.foldl (fun leases (k, lease) => leases.insert k lease) repo.leases })

section Calls
variable {repo : InMemoryLeaseRepository} {now ttl : Int} {partition fileId owner : String}

/-- A lease is granted where none is recorded or the recorded one has expired. -/
theorem acquire_cases (repo : InMemoryLeaseRepository) (now : Int)
    (partition fileId owner : String) (ttl : Int) :
    (∃ e, repo.acquire now partition fileId owner ttl = (.error e, repo)) ∨
    ∃ lease, repo.acquire now partition fileId owner ttl =
        (.ok lease, { leases := repo.leases.insert (key partition fileId) lease }) ∧
      lease.ownerInstanceId = owner ∧
      ∀ old, repo.lease partition fileId = some old → old.expiresAtEpochMillis ≤ now := by
  unfold acquire
  dsimp only
  cases hold : repo.lease partition fileId with
  | none => exact .inr ⟨_, rfl, rfl, by simp⟩
  | some old =>
    dsimp only
    split_ifs with hheld
    · exact .inl ⟨_, rfl⟩
    · exact .inr ⟨_, rfl, rfl, by simpa using hheld⟩

/-- A lease is renewed by its recorded owner, expired or not. -/
theorem renew_cases (repo : InMemoryLeaseRepository) (now : Int) (partition fileId owner : String)
    (ttl : Int) :
    (∃ e, repo.renew now partition fileId owner ttl = (.error e, repo)) ∨
    ∃ old, repo.lease partition fileId = some old ∧ old.ownerInstanceId = owner ∧
      repo.renew now partition fileId owner ttl =
        (.ok (), ⟨repo.leases.insert (key partition fileId)
          { old with expiresAtEpochMillis := now + ttl }⟩) := by
  unfold renew
  cases hold : repo.lease partition fileId with
  | none => exact .inl ⟨_, rfl⟩
  | some old =>
    dsimp only
    split_ifs with howner
    · exact .inl ⟨_, rfl⟩
    · exact .inr ⟨old, rfl, not_not.mp howner, rfl⟩

theorem release_cases (repo : InMemoryLeaseRepository) (partition fileId owner : String) :
    (∃ e, repo.release partition fileId owner = (.error e, repo)) ∨
    ∃ old, repo.lease partition fileId = some old ∧ old.ownerInstanceId = owner ∧
      repo.release partition fileId owner =
        (.ok (), { leases := repo.leases.erase (key partition fileId) }) := by
  unfold release
  cases hold : repo.lease partition fileId with
  | none => exact .inl ⟨_, rfl⟩
  | some old =>
    dsimp only
    split_ifs with howner
    · exact .inl ⟨_, rfl⟩
    · exact .inr ⟨old, rfl, not_not.mp howner, rfl⟩

end Calls

section Claims
variable {repo : InMemoryLeaseRepository} {now limit : Int} {partition claimant k : String}
variable {lease : Lease}

/-- The entries that a claim takes over. -/
def selected (repo : InMemoryLeaseRepository) (now : Int) (partition : String) (limit : Int) :
    List (String × Lease) :=
  (repo.expired now partition).take limit.toNat

theorem mem_expired : (k, lease) ∈ repo.expired now partition ↔ repo.leases[k]? = some lease ∧
    Text.startsWith k (partition ++ "\x1f") = true ∧ lease.expiresAtEpochMillis ≤ now := by
  simp [expired, Std.ExtTreeMap.mem_toList_iff_getElem?_eq_some]

theorem mem_expired_of_mem_selected (h : (k, lease) ∈ repo.selected now partition limit) :
    (k, lease) ∈ repo.expired now partition :=
  List.mem_of_mem_take h

/-- A claim returns the entries it selects, as the claimant now holds them. -/
theorem claimExpired_fst (repo : InMemoryLeaseRepository) (now : Int) (partition : String)
    (limit : Int) (claimant : String) : (repo.claimExpired now partition limit claimant).1 =
      .ok ((repo.selected now partition limit).map fun e => heldBy claimant now e.2) := by
  unfold claimExpired selected
  split_ifs with hlimit
  · simp [Int.toNat_of_nonpos hlimit]
  · simp [Function.comp_def]

/-- Writing entries of a map back, each under its key, changes these entries only. -/
theorem getElem?_rewritten {leases base : Std.ExtTreeMap String Lease} (f : Lease → Lease)
    {entries : List (String × Lease)} (hentries : ∀ e ∈ entries, base[e.1]? = some e.2) :
    ((entries.map fun (k, lease) => (k, f lease)).foldl
        (fun leases (k, lease) => leases.insert k lease) leases)[k]? =
      if k ∈ entries.map Prod.fst then base[k]?.map f else leases[k]? := by
  induction entries generalizing leases with
  | nil => simp
  | cons e entries ih =>
    rw [List.map_cons, List.foldl_cons, ih fun e' he' => hentries e' (List.mem_cons_of_mem _ he')]
    have he := hentries e List.mem_cons_self
    by_cases hk : e.1 = k
    · subst hk
      simp [he]
    · have hk' : k ∈ (e :: entries).map Prod.fst ↔ k ∈ entries.map Prod.fst := by
        rw [List.map_cons, List.mem_cons]
        exact or_iff_right fun h => hk h.symm
      simp only [hk', Std.ExtTreeMap.getElem?_insert, Std.LawfulEqCmp.compare_eq_iff_eq, hk,
        if_false]

/-- What a claim leaves under each key. -/
theorem getElem?_claimExpired (repo : InMemoryLeaseRepository) (now : Int) (partition : String)
    (limit : Int) (claimant k : String) :
    (repo.claimExpired now partition limit claimant).2.leases[k]? =
      if k ∈ (repo.selected now partition limit).map Prod.fst then
        repo.leases[k]?.map (heldBy claimant now)
      else repo.leases[k]? := by
  have hentries : ∀ e ∈ repo.selected now partition limit, repo.leases[e.1]? = some e.2 :=
    fun e he => (mem_expired.mp (mem_expired_of_mem_selected he)).1
  unfold claimExpired
  by_cases hlimit : limit ≤ 0
  · rw [if_pos hlimit]
    simp [selected, Int.toNat_of_nonpos hlimit]
  · rw [if_neg hlimit]
    exact getElem?_rewritten (heldBy claimant now) hentries

end Claims

end InMemoryLeaseRepository

end FileService.Infra
