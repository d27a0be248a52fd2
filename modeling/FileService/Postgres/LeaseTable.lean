import FileService.Common.Indexed
import FileService.Domain.Ports

/-!
# The PostgreSQL lease repository on the local clock

The table `staging_leases` and the statements on it, each of which executes
atomically. Time is in whole seconds here: the clock is asked for its seconds,
and a statement divides the time to live by a thousand.
-/
namespace FileService.Postgres
open FileService.Common FileService.Domain

/-- A row of `staging_leases`; `expiresAt` is in seconds. -/
structure LeaseRow where
  owner : String
  expiresAt : Int
deriving DecidableEq, Repr

/-- The rows by partition and file source. -/
abbrev StagingLeases := Buckets LeaseRow

/-- `NowEpochSeconds` at a reading of the clock. -/
def nowEpochSeconds (nowMillis : Int) : Int := nowMillis / 1000

namespace StagingLeases
variable (leases : StagingLeases) (nowSeconds : Int) (partition fileSource owner : String)
variable (ttlMillis : Int)

def expiresAfter : Int := nowSeconds + ttlMillis.tdiv 1000

/-- `kAcquireLocal`, with the row that it returns. -/
def acquireLocal : Option LeaseRow × StagingLeases :=
  let row : LeaseRow := { owner, expiresAt := expiresAfter nowSeconds ttlMillis }
  match leases.get? partition fileSource with
  | none => (some row, leases.put partition fileSource row)
  | some old =>
    if old.expiresAt ≤ nowSeconds then (some row, leases.put partition fileSource row)
    else (none, leases)

/-- `kRenewLocal`, with the owner that it returns. -/
def renewLocal : Option String × StagingLeases :=
  match leases.get? partition fileSource with
  | none => (none, leases)
  | some old =>
    if old.owner = owner then
      (some owner,
        leases.put partition fileSource { old with expiresAt := expiresAfter nowSeconds ttlMillis })
    else (none, leases)

/-- `kRelease`, with the owner that it returns. -/
def release : Option String × StagingLeases :=
  match leases.get? partition fileSource with
  | none => (none, leases)
  | some old =>
    if old.owner = owner then (some owner, leases.remove partition fileSource) else (none, leases)

/-- `kSelectOwner`. -/
def selectOwner : Option String := (leases.get? partition fileSource).map LeaseRow.owner

/-- The rows that `kClaimExpiredLocal` picks; texts are ordered by the collation of the
database. -/
def expired (collation : String → String → Bool) (limit : Int) : List (String × LeaseRow) :=
  let due := (leases.entries partition).filter fun e => decide (e.2.expiresAt ≤ nowSeconds)
  let earlier (a b : String × LeaseRow) : Bool :=
    decide (a.2.expiresAt < b.2.expiresAt) ||
      (decide (a.2.expiresAt = b.2.expiresAt) && collation a.1 b.1)
  (due.mergeSort earlier).take limit.toNat

def claimedRow (claimant : String) : LeaseRow := { owner := claimant, expiresAt := nowSeconds + 60 }

/-- `kClaimExpiredLocal`, with the rows that it returns under their file sources. -/
def claimExpiredLocal (collation : String → String → Bool) (limit : Int) (claimant : String) :
    List (String × LeaseRow) × StagingLeases :=
  let claimed := (leases.expired nowSeconds partition collation limit).map fun e =>
    (e.1, claimedRow nowSeconds claimant)
  (claimed, claimed.foldl (fun leases e => leases.put partition e.1 e.2) leases)

end StagingLeases

/-- What is not in the table: the order of texts, and `file_locations` by partition and file
source. -/
structure LeaseDatabase where
  collation : String → String → Bool
  fileIdAt : String → String → Option String

namespace PostgresLeaseRepository
variable (db : LeaseDatabase) (leases : StagingLeases) (nowMillis : Int)
variable (partition fileId owner : String) (ttlMillis limit : Int)

def ownerMismatch : Error :=
  match leases.selectOwner partition fileId with
  | none => err .notFound "租约不存在"
  | some _ => err .permissionDenied "租约属于别的实例"

def acquire : Result Lease × StagingLeases :=
  match leases.acquireLocal (nowEpochSeconds nowMillis) partition fileId owner ttlMillis with
  | (none, leases) => (.error (err .unavailable "租约已被占用"), leases)
  | (some row, leases) =>
    (.ok
      { fileId
        fileSource := fileId
        ownerInstanceId := owner
        expiresAtEpochMillis := row.expiresAt * 1000 }, leases)

def renew : Result Unit × StagingLeases :=
  match leases.renewLocal (nowEpochSeconds nowMillis) partition fileId owner ttlMillis with
  | (none, leases) => (.error (ownerMismatch leases partition fileId), leases)
  | (some _, leases) => (.ok (), leases)

def release : Result Unit × StagingLeases :=
  match leases.release partition fileId owner with
  | (none, leases) => (.error (ownerMismatch leases partition fileId), leases)
  | (some _, leases) => (.ok (), leases)

def claimExpired (claimant : String) : Result (List Lease) × StagingLeases :=
  if limit ≤ 0 then (.ok [], leases)
  else
    let claimed :=
      leases.claimExpiredLocal (nowEpochSeconds nowMillis) partition db.collation limit claimant
    let returned : List Lease := claimed.1.map fun e =>
      { fileId := (db.fileIdAt partition e.1).getD ""
        fileSource := e.1
        ownerInstanceId := e.2.owner
        expiresAtEpochMillis := e.2.expiresAt * 1000 }
    (.ok returned, claimed.2)

def leaseCall : (call : LeaseCall) → Result call.Value × StagingLeases
  | .acquire partition fileId owner ttl => acquire leases nowMillis partition fileId owner ttl
  | .renew partition fileId owner ttl => renew leases nowMillis partition fileId owner ttl
  | .release partition fileId owner => release leases partition fileId owner
  | .claimExpired partition limit claimant =>
    claimExpired db leases nowMillis partition limit claimant

/-- The file sources that a claim takes over. -/
def selected : List String :=
  if limit ≤ 0 then []
  else (leases.expired (nowEpochSeconds nowMillis) partition db.collation limit).map Prod.fst

/-! ## What a call can do -/

/-- A lease is granted where there is no row or the row has expired. -/
theorem acquire_cases :
    (∃ e, acquire leases nowMillis partition fileId owner ttlMillis = (.error e, leases) ∧
      ∃ old, leases.get? partition fileId = some old ∧ nowEpochSeconds nowMillis < old.expiresAt) ∨
    ∃ lease, acquire leases nowMillis partition fileId owner ttlMillis =
        (.ok lease, leases.put partition fileId
          { owner
            expiresAt := StagingLeases.expiresAfter (nowEpochSeconds nowMillis) ttlMillis }) ∧
      ∀ old, leases.get? partition fileId = some old →
        old.expiresAt ≤ nowEpochSeconds nowMillis := by
  unfold acquire StagingLeases.acquireLocal
  cases hold : leases.get? partition fileId with
  | none => simp
  | some old =>
    by_cases hdue : old.expiresAt ≤ nowEpochSeconds nowMillis
    · simp [hdue]
    · simp only [if_neg hdue]
      refine .inl ⟨_, rfl, old, rfl, by omega⟩

theorem renew_cases :
    (∃ e, renew leases nowMillis partition fileId owner ttlMillis = (.error e, leases)) ∨
    leases.get? partition fileId ≠ none ∧
      (∀ old, leases.get? partition fileId = some old → old.owner = owner) ∧
      renew leases nowMillis partition fileId owner ttlMillis =
        (.ok (), leases.put partition fileId
          { owner
            expiresAt := StagingLeases.expiresAfter (nowEpochSeconds nowMillis) ttlMillis }) := by
  unfold renew StagingLeases.renewLocal
  cases hold : leases.get? partition fileId with
  | none => simp
  | some old =>
    by_cases howner : old.owner = owner
    · simp [howner]
    · simp [howner]

theorem release_cases :
    (∃ e, release leases partition fileId owner = (.error e, leases)) ∨
    (∀ old, leases.get? partition fileId = some old → old.owner = owner) ∧
      release leases partition fileId owner = (.ok (), leases.remove partition fileId) := by
  unfold release StagingLeases.release
  cases hold : leases.get? partition fileId with
  | none => simp
  | some old =>
    by_cases howner : old.owner = owner
    · simp [howner]
    · simp [howner]

variable {db leases nowMillis partition limit} {fileSource claimant : String}

/-- Only a row that has expired is claimed. -/
theorem expired_of_mem_selected (h : fileSource ∈ selected db leases nowMillis partition limit) :
    ∃ row, leases.get? partition fileSource = some row ∧
      row.expiresAt ≤ nowEpochSeconds nowMillis := by
  unfold selected at h
  split_ifs at h with hlimit
  · cases h
  · obtain ⟨e, he, rfl⟩ := List.mem_map.mp h
    have hmem := (List.mem_mergeSort.mp (List.mem_of_mem_take he))
    simp only [List.mem_filter, decide_eq_true_eq] at hmem
    exact ⟨e.2, Buckets.mem_entries.mp hmem.1, hmem.2⟩

theorem get?_foldl_put {row : LeaseRow} {sources : List String} {q k : String} :
    ((sources.map fun s => (s, row)).foldl
        (fun (leases : StagingLeases) e => leases.put partition e.1 e.2) leases).get? q k =
      if partition = q ∧ k ∈ sources then some row else leases.get? q k := by
  induction sources generalizing leases with
  | nil => simp
  | cons s sources ih =>
    rw [List.map_cons, List.foldl_cons, ih, Buckets.get?_put]
    by_cases hpartition : partition = q
    · by_cases hsource : s = k
      · subst hsource
        simp [hpartition]
      · simp [hpartition, hsource, Ne.symm hsource]
    · simp [hpartition]

/-- What a claim leaves in the table. -/
theorem get?_claimExpired (q k : String) :
    (claimExpired db leases nowMillis partition limit claimant).2.get? q k =
      if partition = q ∧ k ∈ selected db leases nowMillis partition limit then
        some (StagingLeases.claimedRow (nowEpochSeconds nowMillis) claimant)
      else leases.get? q k := by
  unfold claimExpired selected
  by_cases hlimit : limit ≤ 0
  · simp [hlimit]
  · simp only [if_neg hlimit, StagingLeases.claimExpiredLocal]
    rw [← get?_foldl_put, List.map_map]
    rfl

/-- The leases that a claim returns are those of the file sources it selects. -/
theorem sources_claimExpired :
    ∃ returned, (claimExpired db leases nowMillis partition limit claimant).1 = .ok returned ∧
      returned.map Lease.fileSource = selected db leases nowMillis partition limit := by
  unfold claimExpired selected
  by_cases hlimit : limit ≤ 0
  · simp [hlimit]
  · simp [hlimit, StagingLeases.claimExpiredLocal]

end PostgresLeaseRepository

end FileService.Postgres
