import FileService.Domain.World
import FileService.Leasing.Tenure
import FileService.Postgres.LeaseTable

/-!
# For how long a lease is honoured

Both lease repositories are keepers of rights. In memory a deadline is kept in
milliseconds. In the database it is kept in seconds, and the fractions of the
reading and of the time to live are both dropped; so a lease is over before its
time unless both are whole seconds.
-/
namespace FileService.Repositories
open FileService.Common FileService.Domain FileService.Infra FileService.Postgres FileService.Leasing

/-! ## What calls ask for -/

section Calls
variable {Key : Type} (keyOf : String → String → Key)

/-- A call that acquires or renews the lease on the key, for this owner and for that long. -/
def AsksFor (call : LeaseCall) (k : Key) (o : String) (d : Int) : Prop :=
  match call with
  | .acquire partition fileId owner ttl | .renew partition fileId owner ttl =>
    keyOf partition fileId = k ∧ owner = o ∧ ttl = d
  | _ => False

/-- A call with which an owner changes its own lease or gives it up. -/
def DisposesOf (call : LeaseCall) (k : Key) (o : String) : Prop :=
  match call with
  | .renew partition fileId owner _ | .release partition fileId owner =>
    keyOf partition fileId = k ∧ owner = o
  | _ => False

/-- A call of another owner acquires the lease on the key, or a claim has it among its own. -/
def TakesAway (succeeded : Prop) (claimed : String → Int → Set Key) (call : LeaseCall) (k : Key)
    (o : String) : Prop :=
  match call with
  | .acquire partition fileId owner _ => keyOf partition fileId = k ∧ owner ≠ o ∧ succeeded
  | .claimExpired partition limit _ => k ∈ claimed partition limit
  | _ => False

end Calls

theorem other_owner (o : String) : o ++ "x" ≠ o := by
  intro h
  have hlength := congrArg String.length h
  simp at hlength

/-! ## In memory -/

namespace InMemory
open InMemoryLeaseRepository

/-- The texts under which leases are recorded. -/
abbrev LeaseKey := {k : String // ∃ partition fileId, key partition fileId = k}

def leaseKey (partition fileId : String) : LeaseKey := ⟨key partition fileId, partition, fileId, rfl⟩

def held (repo : InMemoryLeaseRepository) (k : LeaseKey) : Option (String × Int) :=
  repo.leases[k.1]?.map fun lease => (lease.ownerInstanceId, lease.expiresAtEpochMillis)

theorem held_insert (repo : InMemoryLeaseRepository) (partition fileId : String) (lease : Lease)
    (k : LeaseKey) : held { leases := repo.leases.insert (key partition fileId) lease } k =
      if leaseKey partition fileId = k then
        some (lease.ownerInstanceId, lease.expiresAtEpochMillis)
      else held repo k := by
  unfold held
  rw [Std.ExtTreeMap.getElem?_insert]
  by_cases hkey : key partition fileId = k.1
  · simp [hkey, leaseKey]
  · simp [hkey, leaseKey, Subtype.ext_iff]

def Grants (now : Int) (repo : InMemoryLeaseRepository) (call : LeaseCall) (k : LeaseKey)
    (o : String) (d : Int) : Prop :=
  AsksFor leaseKey call k o d ∧ ∃ v, (World.leaseCall now repo call).1 = .ok v

def Takes (now : Int) (repo : InMemoryLeaseRepository) (call : LeaseCall) (k : LeaseKey)
    (o : String) : Prop :=
  TakesAway leaseKey (∃ v, (World.leaseCall now repo call).1 = .ok v)
    (fun partition limit => {k | k.1 ∈ (repo.selected now partition limit).map Prod.fst}) call k o

variable {now d e : Int} {repo : InMemoryLeaseRepository} {call : LeaseCall} {k : LeaseKey}
variable {o : String}

theorem held_granted (h : Grants now repo call k o d) :
    held (World.leaseCall now repo call).2 k = some (o, now + d) := by
  obtain ⟨hasks, v, hv⟩ := h
  cases call with
  | acquire partition fileId owner ttl =>
    obtain ⟨rfl, rfl, rfl⟩ := hasks
    simp only [World.leaseCall, acquire] at hv ⊢
    cases hold : repo.lease partition fileId with
    | none => simp [held_insert]
    | some old =>
      by_cases hheld : now < old.expiresAtEpochMillis
      · simp [hold, hheld] at hv
      · simp [held_insert, hheld]
  | renew partition fileId owner ttl =>
    obtain ⟨rfl, rfl, rfl⟩ := hasks
    obtain ⟨e, heq⟩ | ⟨old, hold, howner, heq⟩ := repo.renew_cases now partition fileId owner ttl
    · simp [World.leaseCall, heq] at hv
    · simp [World.leaseCall, heq, held_insert, howner]
  | release partition fileId owner => cases hasks
  | claimExpired partition limit claimant => cases hasks

theorem held_kept (h : held repo k = some (o, e)) (hdue : ¬e ≤ now)
    (hown : ¬DisposesOf leaseKey call k o) : held (World.leaseCall now repo call).2 k = some (o, e) := by
  obtain ⟨lease, hlease, hpair⟩ := Option.map_eq_some_iff.mp h
  obtain ⟨rfl, rfl⟩ := Prod.mk.inj hpair
  cases call with
  | acquire partition fileId owner ttl =>
    obtain ⟨e, heq⟩ | ⟨granted, heq, -, hfree⟩ := repo.acquire_cases now partition fileId owner ttl
    · simpa [World.leaseCall, heq] using h
    · have hkey : leaseKey partition fileId ≠ k := by
        rintro rfl
        exact hdue (hfree lease hlease)
      simpa [World.leaseCall, heq, held_insert, hkey] using h
  | renew partition fileId owner ttl =>
    obtain ⟨e, heq⟩ | ⟨old, hold, howner, heq⟩ := repo.renew_cases now partition fileId owner ttl
    · simpa [World.leaseCall, heq] using h
    · have hkey : leaseKey partition fileId ≠ k := by
        rintro rfl
        have hsame : old = lease := Option.some.inj (hold.symm.trans hlease)
        exact hown ⟨rfl, by rw [← hsame, howner]⟩
      simpa [World.leaseCall, heq, held_insert, hkey] using h
  | release partition fileId owner =>
    obtain ⟨e, heq⟩ | ⟨old, hold, howner, heq⟩ := repo.release_cases partition fileId owner
    · simpa [World.leaseCall, heq] using h
    · have hkey : leaseKey partition fileId ≠ k := by
        rintro rfl
        have hsame : old = lease := Option.some.inj (hold.symm.trans hlease)
        exact hown ⟨rfl, by rw [← hsame, howner]⟩
      have htext : key partition fileId ≠ k.1 := fun heq => hkey (Subtype.ext heq)
      simpa [World.leaseCall, heq, held, Std.ExtTreeMap.getElem?_erase, htext] using h
  | claimExpired partition limit claimant =>
    have hfresh : k.1 ∉ (repo.selected now partition limit).map Prod.fst := by
      intro hselected
      obtain ⟨⟨k', old⟩, hmem, hsame⟩ := List.mem_map.mp hselected
      obtain ⟨hfound, -, hexpired⟩ := mem_expired.mp (mem_expired_of_mem_selected hmem)
      obtain rfl : k' = k.1 := hsame
      obtain rfl : old = lease := Option.some.inj (hfound.symm.trans hlease)
      exact hdue (hexpired)
    have hsame : (World.leaseCall now repo (.claimExpired partition limit claimant)).2.leases[k.1]? =
        repo.leases[k.1]? := by
      simp only [World.leaseCall, getElem?_claimExpired, if_neg hfresh]
    simpa [held, hsame] using h

theorem due_of_takes (h : held repo k = some (o, e)) (htakes : Takes now repo call k o) :
    e ≤ now := by
  obtain ⟨lease, hlease, hpair⟩ := Option.map_eq_some_iff.mp h
  obtain ⟨rfl, rfl⟩ := Prod.mk.inj hpair
  cases call with
  | acquire partition fileId owner ttl =>
    obtain ⟨rfl, -, v, hv⟩ := htakes
    obtain ⟨e, heq⟩ | ⟨granted, -, -, hfree⟩ := repo.acquire_cases now partition fileId owner ttl
    · simp [World.leaseCall, heq] at hv
    · exact hfree lease hlease
  | renew partition fileId owner ttl => cases htakes
  | release partition fileId owner => cases htakes
  | claimExpired partition limit claimant =>
    obtain ⟨⟨k', old⟩, hmem, hsame⟩ := List.mem_map.mp htakes
    obtain ⟨hfound, -, hexpired⟩ := mem_expired.mp (mem_expired_of_mem_selected hmem)
    obtain rfl : k' = k.1 := hsame
    obtain rfl : old = lease := Option.some.inj (hfound.symm.trans hlease)
    exact hexpired

theorem exists_grant (now d : Int) :
    ∃ k o call, Grants now ({} : InMemoryLeaseRepository) call k o d := by
  refine ⟨leaseKey "" "", "", .acquire "" "" "" d, ⟨rfl, rfl, rfl⟩, ?_⟩
  simp [World.leaseCall, acquire, lease]

theorem exists_take (h : held repo k = some (o, e)) (hdue : e ≤ now) :
    ∃ call, Takes now repo call k o := by
  obtain ⟨lease, hlease, hpair⟩ := Option.map_eq_some_iff.mp h
  obtain ⟨rfl, rfl⟩ := Prod.mk.inj hpair
  obtain ⟨text, partition, fileId, rfl⟩ := k
  refine ⟨.acquire partition fileId (lease.ownerInstanceId ++ "x") 0, rfl, other_owner _, ?_⟩
  have hfree : ¬now < lease.expiresAtEpochMillis := by omega
  have hrecorded : repo.lease partition fileId = some lease := hlease
  simp [World.leaseCall, acquire, hrecorded, hfree]

/-- The lease repository in memory, which keeps milliseconds. -/
def keeper : Keeper InMemoryLeaseRepository LeaseCall LeaseKey String where
  start := {}
  step now repo call := (World.leaseCall now repo call).2
  held := held
  deadline now d := now + d
  Due now e := e ≤ now
  Grants := Grants
  Takes := Takes
  Disposes := DisposesOf leaseKey
  granted := held_granted
  kept := held_kept
  taken := due_of_takes
  grantable := exists_grant
  takeable := exists_take

end InMemory

/-! ## In the database -/

namespace Local
open PostgresLeaseRepository

def key (partition fileSource : String) : SourceKey := { partition, source := fileSource }

def held (leases : StagingLeases) (k : SourceKey) : Option (String × Int) :=
  (leases.get? k.partition k.source).map fun row => (row.owner, row.expiresAt)

variable (db : LeaseDatabase) {now d e : Int} {leases : StagingLeases} {call : LeaseCall}
variable {k : SourceKey} {o : String}

def Grants (now : Int) (leases : StagingLeases) (call : LeaseCall) (k : SourceKey) (o : String)
    (d : Int) : Prop :=
  AsksFor key call k o d ∧ ∃ v, (leaseCall db leases now call).1 = .ok v

def Takes (now : Int) (leases : StagingLeases) (call : LeaseCall) (k : SourceKey) (o : String) :
    Prop :=
  TakesAway key (∃ v, (leaseCall db leases now call).1 = .ok v)
    (fun partition limit =>
      {k | k.partition = partition ∧ k.source ∈ selected db leases now partition limit}) call k o

theorem held_put (partition source : String) (row : LeaseRow) (k : SourceKey) :
    held (leases.put partition source row) k =
      if key partition source = k then some (row.owner, row.expiresAt) else held leases k := by
  unfold held
  rw [Buckets.get?_put]
  by_cases hkey : key partition source = k
  · subst hkey
    simp [key]
  · have hparts : ¬(partition = k.partition ∧ source = k.source) := by
      rintro ⟨rfl, rfl⟩
      exact hkey rfl
    rw [if_neg hkey, if_neg hparts]

theorem held_granted {db : LeaseDatabase} (h : Grants db now leases call k o d) :
    held (leaseCall db leases now call).2 k =
      some (o, StagingLeases.expiresAfter (nowEpochSeconds now) d) := by
  obtain ⟨hasks, v, hv⟩ := h
  cases call with
  | acquire partition fileId owner ttl =>
    obtain ⟨rfl, rfl, rfl⟩ := hasks
    obtain ⟨e, heq, -⟩ | ⟨lease, heq, -⟩ := acquire_cases leases now partition fileId owner ttl
    · simp [leaseCall, heq] at hv
    · simp [leaseCall, heq, held_put]
  | renew partition fileId owner ttl =>
    obtain ⟨rfl, rfl, rfl⟩ := hasks
    obtain ⟨e, heq⟩ | ⟨-, -, heq⟩ := renew_cases leases now partition fileId owner ttl
    · simp [leaseCall, heq] at hv
    · simp [leaseCall, heq, held_put]
  | release partition fileId owner => cases hasks
  | claimExpired partition limit claimant => cases hasks

theorem held_kept {db : LeaseDatabase} (h : held leases k = some (o, e))
    (hdue : ¬e ≤ nowEpochSeconds now) (hown : ¬DisposesOf key call k o) :
    held (leaseCall db leases now call).2 k = some (o, e) := by
  obtain ⟨row, hrow, hpair⟩ := Option.map_eq_some_iff.mp h
  obtain ⟨rfl, rfl⟩ := Prod.mk.inj hpair
  cases call with
  | acquire partition fileId owner ttl =>
    obtain ⟨e, heq, -⟩ | ⟨lease, heq, hfree⟩ := acquire_cases leases now partition fileId owner ttl
    · simpa [leaseCall, heq] using h
    · have hkey : key partition fileId ≠ k := by
        rintro rfl
        exact hdue (hfree row hrow)
      simpa [leaseCall, heq, held_put, hkey] using h
  | renew partition fileId owner ttl =>
    obtain ⟨e, heq⟩ | ⟨-, howner, heq⟩ := renew_cases leases now partition fileId owner ttl
    · simpa [leaseCall, heq] using h
    · have hkey : key partition fileId ≠ k := by
        rintro rfl
        exact hown ⟨rfl, (howner row hrow).symm⟩
      simpa [leaseCall, heq, held_put, hkey] using h
  | release partition fileId owner =>
    obtain ⟨e, heq⟩ | ⟨howner, heq⟩ := release_cases leases partition fileId owner
    · simpa [leaseCall, heq] using h
    · have hparts : ¬(partition = k.partition ∧ fileId = k.source) := by
        rintro ⟨rfl, rfl⟩
        exact hown ⟨rfl, (howner row hrow).symm⟩
      simpa [leaseCall, heq, held, Buckets.get?_remove, hparts] using h
  | claimExpired partition limit claimant =>
    have hfresh : ¬(partition = k.partition ∧ k.source ∈ selected db leases now partition limit) := by
      rintro ⟨rfl, hselected⟩
      obtain ⟨row', hrow', hexpired⟩ := expired_of_mem_selected hselected
      rw [hrow] at hrow'
      obtain rfl := Option.some.inj hrow'
      exact hdue hexpired
    simpa [leaseCall, held, get?_claimExpired, hfresh] using h

theorem due_of_takes {db : LeaseDatabase} (h : held leases k = some (o, e))
    (htakes : Takes db now leases call k o) : e ≤ nowEpochSeconds now := by
  obtain ⟨row, hrow, hpair⟩ := Option.map_eq_some_iff.mp h
  obtain ⟨rfl, rfl⟩ := Prod.mk.inj hpair
  cases call with
  | acquire partition fileId owner ttl =>
    obtain ⟨rfl, -, v, hv⟩ := htakes
    obtain ⟨e, heq, -⟩ | ⟨lease, -, hfree⟩ := acquire_cases leases now partition fileId owner ttl
    · simp [leaseCall, heq] at hv
    · exact hfree row hrow
  | renew partition fileId owner ttl => cases htakes
  | release partition fileId owner => cases htakes
  | claimExpired partition limit claimant =>
    obtain ⟨rfl, hselected⟩ := htakes
    obtain ⟨row', hrow', hexpired⟩ := expired_of_mem_selected hselected
    rw [hrow] at hrow'
    obtain rfl := Option.some.inj hrow'
    exact hexpired

theorem exists_grant (now d : Int) : ∃ k o call, Grants db now (∅ : StagingLeases) call k o d := by
  refine ⟨key "" "", "", .acquire "" "" "" d, ⟨rfl, rfl, rfl⟩, ?_⟩
  obtain ⟨e, -, old, hold, -⟩ | ⟨lease, heq, -⟩ :=
    acquire_cases (∅ : StagingLeases) now "" "" "" d
  · simp at hold
  · simp [leaseCall, heq]

theorem exists_take (h : held leases k = some (o, e)) (hdue : e ≤ nowEpochSeconds now) :
    ∃ call, Takes db now leases call k o := by
  obtain ⟨row, hrow, hpair⟩ := Option.map_eq_some_iff.mp h
  obtain ⟨rfl, rfl⟩ := Prod.mk.inj hpair
  refine ⟨.acquire k.partition k.source (row.owner ++ "x") 0, rfl, other_owner _, ?_⟩
  obtain ⟨e, -, old, hold, hheld⟩ | ⟨lease, heq, -⟩ :=
    acquire_cases leases now k.partition k.source (row.owner ++ "x") 0
  · rw [hrow] at hold
    obtain rfl := Option.some.inj hold
    omega
  · simp [leaseCall, heq]

/-- The lease repository on the database, which keeps seconds. -/
def keeper : Keeper StagingLeases LeaseCall SourceKey String where
  start := ∅
  step now leases call := (leaseCall db leases now call).2
  held := held
  deadline now d := StagingLeases.expiresAfter (nowEpochSeconds now) d
  Due now e := e ≤ nowEpochSeconds now
  Grants := Grants db
  Takes := Takes db
  Disposes := DisposesOf key
  granted := held_granted
  kept := held_kept
  taken := due_of_takes
  grantable := exists_grant db
  takeable := exists_take db

end Local

/-! ## Deadlines -/

/-- The reading from which on a lease on the database is over. -/
def overAt (t d : Int) : Int := 1000 * (nowEpochSeconds t + d / 1000)

variable {t d e : Int}

theorem memory_honours : InMemory.keeper.Honours t d e ↔ e ≤ t + d := by
  rw [Keeper.honours_iff]
  constructor
  · intro h
    by_contra hlate
    exact h (t + d) (by omega) le_rfl
  · intro hle t' hbefore hdue
    exact absurd (hdue.trans_lt hbefore) (not_lt.mpr hle)

theorem local_honours (db : LeaseDatabase) (hd : 0 < d) :
    (Local.keeper db).Honours t d e ↔ e ≤ overAt t d := by
  have hdue : ∀ t', (Local.keeper db).Due t' ((Local.keeper db).deadline t d) ↔
      overAt t d ≤ t' := by
    intro t'
    have hwhole : d.tdiv 1000 = d / 1000 := Int.tdiv_eq_ediv_of_nonneg hd.le
    change nowEpochSeconds t + d.tdiv 1000 ≤ t' / 1000 ↔ _
    unfold overAt
    omega
  rw [Keeper.honours_iff]
  simp only [hdue]
  constructor
  · intro h
    by_contra hlate
    exact h (overAt t d) (by omega) le_rfl
  · intro hle t' hbefore hover
    omega

theorem overAt_eq_iff : overAt t d = t + d ↔ 1000 ∣ t ∧ 1000 ∣ d := by
  unfold overAt nowEpochSeconds
  omega

theorem overAt_le (t d : Int) : overAt t d ≤ t + d := by
  unfold overAt nowEpochSeconds
  omega

/-- In memory a lease lasts for its time to live. On the database it lasts up to the whole second
that the two whole numbers of seconds add up to, which is its time to live just when the reading
and the time to live have no fraction of a second. -/
theorem lease_durations_exact (db : LeaseDatabase) (t d : Int) (hd : 0 < d) :
    InMemory.keeper.Honours t d (t + d) ∧
      (∀ e, (Local.keeper db).Honours t d e ↔ e ≤ overAt t d) ∧
      ((Local.keeper db).Honours t d (t + d) ↔ 1000 ∣ t ∧ 1000 ∣ d) := by
  refine ⟨memory_honours.mpr le_rfl, fun e => local_honours db hd, ?_⟩
  rw [local_honours db hd, ← overAt_eq_iff]
  have hle := overAt_le t d
  omega

/-- Texts in their own order, and no locations. -/
def bareDatabase : LeaseDatabase where
  collation a b := decide (a ≤ b)
  fileIdAt _ _ := none

theorem whole_second_honoured : (Local.keeper bareDatabase).Honours 2000 60000 62000 :=
  ((lease_durations_exact bareDatabase 2000 60000 (by decide)).2.2).mpr (by decide)

/-- A lease for a second, given a millisecond before the second 2, is free in the second 2. -/
theorem last_millisecond_not_honoured :
    ¬∀ t d : Int, 0 < d → (Local.keeper bareDatabase).Honours t d (t + d) := by
  intro h
  let grant : LeaseCall := .acquire "p" "/f" "a" 1000
  let take : LeaseCall := .acquire "p" "/f" "b" 1000
  have hgrant : Local.Grants bareDatabase 1999 ∅ grant (Local.key "p" "/f") "a" 1000 := by
    refine ⟨⟨rfl, rfl, rfl⟩, ?_⟩
    simp [grant, PostgresLeaseRepository.leaseCall, PostgresLeaseRepository.acquire,
      StagingLeases.acquireLocal]
  have hheld : (PostgresLeaseRepository.leaseCall bareDatabase ∅ 1999 grant).2 =
      Buckets.put ∅ "p" "/f" { owner := "a", expiresAt := 2 } := by
    simp [grant, PostgresLeaseRepository.leaseCall, PostgresLeaseRepository.acquire,
      StagingLeases.acquireLocal, StagingLeases.expiresAfter, nowEpochSeconds]
  have htake : Local.Takes bareDatabase 2000
      (PostgresLeaseRepository.leaseCall bareDatabase ∅ 1999 grant).2 take (Local.key "p" "/f")
      "a" := by
    rw [hheld]
    refine ⟨rfl, by decide, ?_⟩
    simp [take, PostgresLeaseRepository.leaseCall, PostgresLeaseRepository.acquire,
      StagingLeases.acquireLocal, nowEpochSeconds, Buckets.get?_put]
  exact h 1999 1000 (by decide) [] grant _ _ [] 2000 take hgrant (by simp) (by decide) htake

end FileService.Repositories
