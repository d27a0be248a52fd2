import FileService.Infra.MetadataMemory

/-!
# The metadata repository by file source

What the callers rely on is the row of a file source: nothing, a claiming
version or a ready one. Each method changes the row it is called for and no
other, and its reply tells which change it made.
-/
namespace FileService.Infra
open FileService.Common FileService.Domain

namespace InMemoryMetadataRepository
variable {repo : InMemoryMetadataRepository} {p id fs : String} {v : Version}

theorem row_eq_some :
    repo.row p fs = some v ↔ ∃ chain, repo.findChain p v.record.id = some chain ∧
      chain.getLast? = some v ∧ v.record.fileSource = fs := by
  unfold row
  rw [Option.bind_eq_some_iff]
  constructor
  · rintro ⟨chain, hchain, hlast⟩
    obtain ⟨k, hk, hsource⟩ := repo.inverse.findBySource.mp hchain
    have hid := (repo.coherent hk).ids v (List.mem_of_getLast? hlast)
    exact ⟨chain, hid ▸ hk, hlast, (Chain.source_of_last hlast).symm.trans hsource⟩
  · rintro ⟨chain, hchain, hlast, hsource⟩
    exact ⟨chain, repo.inverse.findBySource.mpr
      ⟨_, hchain, (Chain.source_of_last hlast).trans hsource⟩, hlast⟩

theorem row_fileSource (h : repo.row p fs = some v) : v.record.fileSource = fs :=
  (row_eq_some.mp h).choose_spec.2.2

/-- A stored chain is the chain of exactly one row. -/
theorem exists_row {chain : Chain} (h : repo.findChain p id = some chain) :
    ∃ v, chain.getLast? = some v ∧ v.record.id = id ∧
      repo.row p v.record.fileSource = some v := by
  obtain ⟨v, hlast⟩ := (repo.coherent h).exists_last
  have hid := (repo.coherent h).ids v (List.mem_of_getLast? hlast)
  exact ⟨v, hlast, hid, row_eq_some.mpr ⟨chain, hid ▸ h, hlast, rfl⟩⟩

/-- Two rows of a partition have different ids. -/
theorem row_id_unique {fs' : String} {v' : Version} (h : repo.row p fs = some v)
    (h' : repo.row p fs' = some v') (hid : v.record.id = v'.record.id) : fs = fs' ∧ v = v' := by
  obtain ⟨chain, hchain, hlast, hsource⟩ := row_eq_some.mp h
  obtain ⟨chain', hchain', hlast', hsource'⟩ := row_eq_some.mp h'
  rw [hid, hchain'] at hchain
  cases hchain
  rw [hlast'] at hlast
  cases hlast
  exact ⟨hsource.symm.trans hsource', rfl⟩

theorem row_putChain {chain : Chain} {hchain hfree} (q s : String) :
    (repo.putChain p id chain hchain hfree).row q s =
      if p = q ∧ chain.source = s then chain.getLast?
      else if p = q ∧ (repo.findChain p id).map Chain.source = some s then none
      else repo.row q s := by
  unfold row putChain findChain
  rw [repo.inverse.findBySource_save hfree q s]
  by_cases hnew : p = q ∧ chain.source = s
  · simp [hnew]
  · simp only [if_neg hnew]
    split_ifs <;> rfl

theorem row_eraseChain (q s : String) :
    (repo.eraseChain p id).row q s =
      if p = q ∧ (repo.findChain p id).map Chain.source = some s then none
      else repo.row q s := by
  unfold row eraseChain findChain
  rw [repo.inverse.findBySource_delete p id q s]
  split_ifs <;> rfl

theorem findChain_source (h : repo.row p fs = some v) :
    (repo.findChain p v.record.id).map Chain.source = some fs := by
  obtain ⟨chain, hchain, hlast, hsource⟩ := row_eq_some.mp h
  simp [hchain, Chain.source_of_last hlast, hsource]

theorem row_eraseChain_of_row (h : repo.row p fs = some v) (q s : String) :
    (repo.eraseChain p v.record.id).row q s = if p = q ∧ fs = s then none else repo.row q s := by
  rw [row_eraseChain, findChain_source h]
  simp only [Option.some.injEq]

/-- A claim finds the row taken, or takes it. -/
theorem claimForWrite_cases (repo : InMemoryMetadataRepository) (now : Int) (p : String)
    (record : FileMetadataRecord) :
    (∃ e, repo.claimForWrite now p record = (.error e, repo)) ∨
    (∃ v, repo.row p record.fileSource = some v ∧ repo.claimForWrite now p record =
      (.ok ⟨false, v.record, v.state⟩, repo)) ∨
    (p ≠ "" ∧ repo.row p record.fileSource = none ∧
      (repo.claimForWrite now p record).1 = .ok ⟨true, (claimingVersion now record).record, .claiming⟩ ∧
      ∀ q s, (repo.claimForWrite now p record).2.row q s =
        if p = q ∧ record.fileSource = s then some (claimingVersion now record)
        else repo.row q s) := by
  unfold claimForWrite
  cases hvalid : validatePartitionAndId p record with
  | error e => exact .inl ⟨e, rfl⟩
  | ok u =>
    cases u
    have hp : p ≠ "" := by
      intro hempty
      simp [validatePartitionAndId, hempty] at hvalid
    by_cases hfs : record.fileSource = ""
    · exact .inl ⟨_, by simp only [dif_pos hfs]; rfl⟩
    · simp only [dif_neg hfs]
      split
      · rename_i chain hchain
        cases hlast : chain.getLast? with
        | none => exact .inl ⟨_, rfl⟩
        | some v => exact .inr (.inl ⟨v, by simp [row, hchain, hlast], rfl⟩)
      · rename_i hchain
        cases hid : repo.findChain p record.id with
        | some c => exact .inl ⟨_, rfl⟩
        | none =>
          refine .inr (.inr ⟨hp, by simp [row, hchain], rfl, fun q s => ?_⟩)
          dsimp only
          rw [row_putChain, hid]
          simp only [Option.map_none, reduceCtorEq, and_false, if_false]
          rfl

theorem find?_of_claiming {chain : Chain} {version : Int} (h : repo.findChain p id = some chain)
    (hfind : chain.find? (·.record.version == version) = some v) (hstate : v.state = .claiming) :
    v.record.id = id ∧ v.record.version = version ∧
      repo.row p v.record.fileSource = some v := by
  obtain ⟨hone, hversion⟩ := (repo.coherent h).claiming_eq hfind hstate
  subst hone
  have hid : v.record.id = id := by simpa using (repo.coherent h).ids
  exact ⟨hid, hversion, row_eq_some.mpr ⟨[v], hid ▸ h, by simp, rfl⟩⟩

/-- A marking turns a claiming row of the same id and version into a ready one. -/
theorem markReady_cases (repo : InMemoryMetadataRepository) (p id : String) (version : Int)
    (record : FileMetadataRecord) :
    (∃ e, repo.markReady p id version record = (.error e, repo)) ∨
    ∃ v, repo.row p record.fileSource = some v ∧ v.state = .claiming ∧ v.record.id = id ∧
      v.record.version = version ∧
      (repo.markReady p id version record).1 =
        .ok { record with id := id, version := version } ∧
      ∀ q s, (repo.markReady p id version record).2.row q s =
        if p = q ∧ record.fileSource = s then some (Chain.readyVersion id version record v)
        else repo.row q s := by
  unfold markReady
  cases validatePartitionAndId p record with
  | error e => exact .inl ⟨e, rfl⟩
  | ok u =>
    cases u
    dsimp only
    split
    · exact .inl ⟨_, rfl⟩
    · rename_i chain hchain
      split
      · exact .inl ⟨_, rfl⟩
      · rename_i v hfind
        split_ifs with hstate hsource
        · exact .inl ⟨_, rfl⟩
        · exact .inl ⟨_, rfl⟩
        · have hclaiming := not_not.mp hstate
          have hfs := not_not.mp hsource
          obtain ⟨hid, hversion, hrow⟩ := find?_of_claiming hchain hfind hclaiming
          refine .inr ⟨v, hfs ▸ hrow, hclaiming, hid, hversion, rfl, fun q s => ?_⟩
          have hcoh := repo.coherent hchain
          have hsrc : chain.source = record.fileSource := by
            rw [(hcoh.claiming_eq hfind hclaiming).1]
            exact hfs
          rw [row_putChain, hcoh.source_markReady hfind hclaiming hfs, hchain,
            hcoh.markReady_eq hfind hclaiming, hsrc]
          by_cases hq : p = q ∧ record.fileSource = s
          · simp [hq]
          · simp [hsrc, hq]

theorem eraseClaiming_cases (repo : InMemoryMetadataRepository) (p id : String) (version : Int) :
    (∃ e, repo.eraseClaiming p id version = .error e) ∨
    ∃ v, v.state = .claiming ∧ v.record.id = id ∧ v.record.version = version ∧
      repo.row p v.record.fileSource = some v ∧
      repo.eraseClaiming p id version = .ok (repo.eraseChain p id) ∧
      ∀ q s, (repo.eraseChain p id).row q s =
        if p = q ∧ v.record.fileSource = s then none else repo.row q s := by
  unfold eraseClaiming
  split
  · exact .inl ⟨_, rfl⟩
  · rename_i chain hchain
    split
    · exact .inl ⟨_, rfl⟩
    · rename_i v hfind
      split_ifs with hstate hrest
      · exact .inl ⟨_, rfl⟩
      · obtain ⟨hid, hversion, hrow⟩ := find?_of_claiming hchain hfind (not_not.mp hstate)
        refine .inr ⟨v, not_not.mp hstate, hid, hversion, hrow, rfl, fun q s => ?_⟩
        rw [← hid]
        exact row_eraseChain_of_row hrow q s
      · exact absurd ((repo.coherent hchain).erase_eq_nil hfind (not_not.mp hstate)) hrest

/-- A release frees a claiming row of the same id and version. -/
theorem releaseClaim_cases (repo : InMemoryMetadataRepository) (p id : String) (version : Int) :
    (∃ e, repo.releaseClaim p id version = (.error e, repo)) ∨
    ∃ v, v.state = .claiming ∧ v.record.id = id ∧ v.record.version = version ∧
      repo.row p v.record.fileSource = some v ∧
      (repo.releaseClaim p id version).1 = .ok () ∧
      ∀ q s, (repo.releaseClaim p id version).2.row q s =
        if p = q ∧ v.record.fileSource = s then none else repo.row q s := by
  unfold releaseClaim
  by_cases hp : p = ""
  · exact .inl ⟨_, by rw [if_pos hp]⟩
  · simp only [if_neg hp]
    rcases repo.eraseClaiming_cases p id version with ⟨e, he⟩ | ⟨v, hs, hid, hv, hrow, hok, hrows⟩
    · exact .inl ⟨e, by rw [he]⟩
    · exact .inr ⟨v, hs, hid, hv, hrow, by rw [hok], by rw [hok]; exact hrows⟩

/-- A claiming row is freed by a release of its id and version. -/
theorem releaseClaim_eq_ok (hp : p ≠ "") (hrow : repo.row p fs = some v)
    (hstate : v.state = .claiming) (q s : String) :
    (repo.releaseClaim p v.record.id v.record.version).2.row q s =
      if p = q ∧ fs = s then none else repo.row q s := by
  obtain ⟨chain, hchain, hlast, hsource⟩ := row_eq_some.mp hrow
  have hone := (repo.coherent hchain).eq_singleton (List.mem_of_getLast? hlast) hstate
  subst hone
  have herase : repo.eraseClaiming p v.record.id v.record.version =
      .ok (repo.eraseChain p v.record.id) := by
    unfold eraseClaiming
    split
    · rename_i hnone
      rw [hchain] at hnone
      cases hnone
    · rename_i chain hfound
      obtain rfl := Option.some.inj (hchain.symm.trans hfound)
      split
      · rename_i hfind
        simp at hfind
      · rename_i found hfind
        have hv : v = found := by simpa using hfind
        subst hv
        simp [hstate]
  simp only [releaseClaim, if_neg hp, herase]
  rw [row_eraseChain_of_row hrow]

theorem getLatestByFileSource_eq_ok {record : FileMetadataRecord} :
    repo.getLatestByFileSource p fs = .ok record ↔
      ∃ v, repo.row p fs = some v ∧ v.state = .ready ∧ v.record = record := by
  unfold getLatestByFileSource readable
  cases hrow : repo.row p fs with
  | none => simp
  | some v => by_cases hs : v.state = .ready <;> simp [hs]

theorem getById_eq_ok {record : FileMetadataRecord} :
    repo.getById p id = .ok record ↔ ∃ v, repo.row p v.record.fileSource = some v ∧
      v.state = .ready ∧ v.record = record ∧ record.id = id := by
  unfold getById readable
  constructor
  · intro h
    cases hchain : repo.findChain p id with
    | none => simp [hchain] at h
    | some chain =>
      obtain ⟨v, hlast, hid, hrow⟩ := exists_row hchain
      simp only [hchain, Option.bind_some, hlast] at h
      split_ifs at h with hs
      cases h
      exact ⟨v, hrow, not_not.mp hs, rfl, hid⟩
  · rintro ⟨v, hrow, hs, rfl, rfl⟩
    obtain ⟨chain, hchain, hlast, -⟩ := row_eq_some.mp hrow
    simp [hchain, hlast, hs]

/-- A deletion frees the row of the record id. -/
theorem delete_cases (repo : InMemoryMetadataRepository) (p id : String) :
    (repo.findChain p id = none ∧ ∃ e, repo.delete p id = (.error e, repo)) ∨
    ∃ v, v.record.id = id ∧ repo.row p v.record.fileSource = some v ∧
      (repo.delete p id).1 = .ok () ∧
      ∀ q s, (repo.delete p id).2.row q s =
        if p = q ∧ v.record.fileSource = s then none else repo.row q s := by
  unfold delete
  cases hchain : repo.findChain p id with
  | none => exact .inl ⟨rfl, _, rfl⟩
  | some chain =>
    obtain ⟨v, -, rfl, hrow⟩ := exists_row hchain
    exact .inr ⟨v, rfl, hrow, rfl, row_eraseChain_of_row hrow⟩

/-- Rows that a reclaim may take away. -/
def Reclaimable (olderThan : Int) (allowed : List String) (v : Version) : Prop :=
  v.state = .claiming ∧ v.createdAtEpochSeconds ≤ olderThan ∧ v.record.fileSource ∈ allowed

/-- A reclaim frees claiming rows only, and only old ones of the sources it was given. -/
theorem reclaimStaleClaiming_row (repo : InMemoryMetadataRepository) (p : String)
    (olderThan limit : Int) (allowed : List String) (q s : String) :
    (repo.reclaimStaleClaiming p olderThan limit allowed).2.row q s = repo.row q s ∨
    ∃ v, q = p ∧ repo.row q s = some v ∧ Reclaimable olderThan allowed v ∧
      (repo.reclaimStaleClaiming p olderThan limit allowed).2.row q s = none := by
  unfold reclaimStaleClaiming
  split_ifs
  · exact .inl rfl
  · exact .inl rfl
  · exact .inl rfl
  · dsimp only
    have hvictims : ∀ victim ∈ (repo.staleClaims p olderThan allowed).take limit.toNat,
        ∀ v, repo.row p v.record.fileSource = some v → v.record.id = victim.1 →
          Reclaimable olderThan allowed v := by
      intro victim hmem v hrow hid
      have hmem' := List.mem_of_mem_take hmem
      simp only [staleClaims, List.mem_filterMap, Option.map_eq_some_iff, Prod.exists] at hmem'
      obtain ⟨k, chain, hentry, w, hfind, rfl⟩ := hmem'
      have hchain : repo.findChain p k = some chain := Buckets.mem_entries.mp hentry
      have hw := List.find?_some hfind
      simp only [Bool.and_eq_true, beq_iff_eq, decide_eq_true_eq, List.contains_iff_mem] at hw
      have hone := (repo.coherent hchain).eq_singleton (List.mem_of_find?_eq_some hfind) hw.1.1
      obtain ⟨c, hc, hlast, -⟩ := row_eq_some.mp hrow
      rw [hid, hchain] at hc
      cases hc
      rw [hone] at hlast
      simp only [List.getLast?_singleton, Option.some.injEq] at hlast
      subst hlast
      exact ⟨hw.1.1, hw.1.2, hw.2⟩
    generalize (repo.staleClaims p olderThan allowed).take limit.toNat = victims at hvictims
    suffices hfold : ∀ acc : Int × InMemoryMetadataRepository,
        (∀ q s, acc.2.row q s = repo.row q s ∨ ∃ v, q = p ∧ repo.row q s = some v ∧
          Reclaimable olderThan allowed v ∧ acc.2.row q s = none) →
        ∀ q s, (victims.foldl (reclaimOne p limit) acc).2.row q s = repo.row q s ∨
          ∃ v, q = p ∧ repo.row q s = some v ∧ Reclaimable olderThan allowed v ∧
            (victims.foldl (reclaimOne p limit) acc).2.row q s = none from
      hfold (0, repo) (fun _ _ => .inl rfl) q s
    induction victims with
    | nil => exact fun acc hacc => hacc
    | cons victim victims ih =>
      intro acc hacc
      refine ih (fun w hw => hvictims w (List.mem_cons_of_mem _ hw)) (reclaimOne p limit acc victim)
        fun q s => ?_
      unfold reclaimOne
      split_ifs
      · exact hacc q s
      · rcases acc.2.eraseClaiming_cases p victim.1 victim.2 with
          ⟨e, he⟩ | ⟨v, hstate, hid, hversion, hrow, hok, hrows⟩
        · rw [he]
          exact hacc q s
        · rw [hok]
          simp only [hrows]
          by_cases hq : p = q ∧ v.record.fileSource = s
          · obtain ⟨rfl, rfl⟩ := hq
            have horig : repo.row p v.record.fileSource = some v := by
              rcases hacc p v.record.fileSource with hsame | ⟨w, -, -, -, hnone⟩
              · exact hsame.symm.trans hrow
              · rw [hnone] at hrow
                cases hrow
            exact .inr ⟨v, rfl, horig, hvictims victim (List.mem_cons_self ..) v horig hid,
              by simp⟩
          · simp only [if_neg hq]
            exact hacc q s

end InMemoryMetadataRepository

end FileService.Infra
