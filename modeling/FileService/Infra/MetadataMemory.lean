import FileService.Common.Indexed
import FileService.Domain.FileMetadata

/-!
# The in-memory metadata repository

Each record id owns a chain of versions. A creation first claims its file source
with a claiming version 1, which no reader sees, and later marks it ready. The
repository carries its representation invariant: chains are coherent, and the
source index is inverse to the ids.
-/
namespace FileService.Infra
open FileService.Common FileService.Domain

inductive MetadataState where
  | claiming
  | ready
  | deleted
deriving DecidableEq, Repr

structure MetadataClaim where
  claimed : Bool := false
  record : FileMetadataRecord
  state : MetadataState := .ready

structure MetadataCapabilities where
  atomicClaim : Bool := true
  backendName : String := "local"

structure MetadataQuery where
  kind : Option String := none
  namePrefix : Option String := none
  createdAfterEpochSeconds : Int := -1
  createdBeforeEpochSeconds : Int := -1
  limit : Int := 100
  offset : Int := 0

structure MetadataPage where
  records : List FileMetadataRecord := []
  total : Int := 0

structure Version where
  record : FileMetadataRecord
  createdAtEpochSeconds : Int := 0
  isLatest : Bool := false
  state : MetadataState := .ready

abbrev Chain := List Version

namespace Chain

/-- The file source of the last version. -/
def source (chain : Chain) : String :=
  match chain.getLast? with
  | some v => v.record.fileSource
  | none => ""

/-- What holds of every chain that is stored under `id`. -/
structure Coherent (id : String) (chain : Chain) : Prop where
  nonempty : chain ≠ []
  source_ne : chain.source ≠ ""
  sources : ∀ v ∈ chain, v.record.fileSource = chain.source
  ids : ∀ v ∈ chain, v.record.id = id
  versions : chain.map (·.record.version) = (List.range chain.length).map fun n : Nat => (n : Int) + 1
  latest : chain.map (·.isLatest) = List.replicate (chain.length - 1) false ++ [true]
  claiming : ∀ v ∈ chain, v.state = .ready ∨ v.state = .claiming ∧ chain = [v]

theorem coherent_singleton {v : Version} (hsource : v.record.fileSource ≠ "")
    (hversion : v.record.version = 1) (hlatest : v.isLatest = true)
    (hstate : v.state = .ready ∨ v.state = .claiming) : Coherent v.record.id [v] where
  nonempty := by simp
  source_ne := by simpa [source] using hsource
  sources := by simp [source]
  ids := by simp
  versions := by simp [hversion]
  latest := by simp [hlatest]
  claiming := by simpa using hstate

variable {id : String} {chain : Chain}

/-- A claiming version is alone in its chain. -/
theorem Coherent.eq_singleton (h : Coherent id chain) {v : Version} (hv : v ∈ chain)
    (hstate : v.state = .claiming) : chain = [v] := by
  rcases h.claiming v hv with hready | ⟨-, hone⟩
  · rw [hready] at hstate
    cases hstate
  · exact hone

theorem Coherent.exists_last (h : Coherent id chain) : ∃ v, chain.getLast? = some v :=
  ⟨_, List.getLast?_eq_some_getLast h.nonempty⟩

theorem source_of_last {v : Version} (h : chain.getLast? = some v) :
    chain.source = v.record.fileSource := by
  simp [source, h]

def modifyFirst (accepts : Version → Bool) (f : Version → Version) : Chain → Chain
  | [] => []
  | v :: vs => if accepts v then f v :: vs else v :: modifyFirst accepts f vs

/-- The ready version that a marking makes of `v`. -/
def readyVersion (id : String) (version : Int) (record : FileMetadataRecord) (v : Version) :
    Version :=
  { v with record := { record with id := id, version := version }, state := .ready }

def markReady (id : String) (version : Int) (record : FileMetadataRecord) (chain : Chain) : Chain :=
  modifyFirst (·.record.version == version) (readyVersion id version record) chain

section Claiming
variable {version : Int} {v : Version} (h : Coherent id chain)
  (hfind : chain.find? (·.record.version == version) = some v) (hstate : v.state = .claiming)
include h hfind hstate

theorem Coherent.claiming_eq : chain = [v] ∧ v.record.version = version :=
  ⟨h.eq_singleton (List.mem_of_find?_eq_some hfind) hstate, by simpa using List.find?_some hfind⟩

theorem Coherent.erase_eq_nil : chain.eraseP (·.record.version == version) = [] := by
  obtain ⟨hone, hversion⟩ := h.claiming_eq hfind hstate
  simp [hone, hversion]

theorem Coherent.markReady_eq (record : FileMetadataRecord) :
    chain.markReady id version record = [readyVersion id version record v] := by
  obtain ⟨hone, hversion⟩ := h.claiming_eq hfind hstate
  simp [markReady, hone, modifyFirst, hversion]

variable {record : FileMetadataRecord} (hsource : v.record.fileSource = record.fileSource)
include hsource

theorem Coherent.source_markReady : (chain.markReady id version record).source = chain.source := by
  rw [h.markReady_eq hfind hstate record, (h.claiming_eq hfind hstate).1]
  exact hsource.symm

theorem Coherent.markReady : (chain.markReady id version record).Coherent id := by
  obtain ⟨hone, hversion⟩ := h.claiming_eq hfind hstate
  rw [h.markReady_eq hfind hstate record]
  subst hone
  refine coherent_singleton (v := readyVersion id version record v) ?_ ?_ ?_ (.inl rfl)
  · have hne : v.record.fileSource ≠ "" := h.source_ne
    exact fun hempty => hne (hsource.trans hempty)
  · have hone : v.record.version = 1 := by simpa using h.versions
    exact hversion.symm.trans hone
  · have hlatest : v.isLatest = true := by simpa using h.latest
    exact hlatest

end Claiming

/-- Add the next version, which becomes the latest one. -/
def append (nowSeconds : Int) (record : FileMetadataRecord) (last : Version) (chain : Chain) :
    Chain :=
  chain.map (fun v => { v with isLatest := false }) ++
    [{ record := { record with version := last.record.version + 1 }
       createdAtEpochSeconds := nowSeconds
       isLatest := true
       state := .ready }]

theorem Coherent.last_version (h : Coherent id chain) {last : Version}
    (hlast : chain.getLast? = some last) : last.record.version = chain.length := by
  have hmap := congrArg List.getLast? h.versions
  rw [List.getLast?_map, hlast] at hmap
  obtain ⟨n, hn⟩ : ∃ n, chain.length = n + 1 :=
    ⟨chain.length - 1, by have := List.length_pos_of_ne_nil h.nonempty; omega⟩
  rw [hn] at hmap ⊢
  simpa [List.range_succ] using hmap

theorem Coherent.append (h : Coherent id chain) {last : Version} (hlast : chain.getLast? = some last)
    (hready : last.state = .ready) {record : FileMetadataRecord} (hid : record.id = id)
    (hsource : record.fileSource = chain.source) (nowSeconds : Int) :
    (chain.append nowSeconds record last).Coherent id where
  nonempty := by simp [Chain.append]
  source_ne := by
    have hne := h.source_ne
    rw [← hsource] at hne
    simpa [Chain.append, source, FileMetadataRecord.fileSource] using hne
  sources := by
    have hs := h.sources
    rw [← hsource] at hs
    simp only [Chain.append, List.mem_append, List.mem_map, List.mem_singleton, source,
      List.getLast?_append, List.getLast?_singleton, Option.some_or]
    rintro v (⟨w, hw, rfl⟩ | rfl)
    · exact hs w hw
    · rfl
  ids := by
    simp only [Chain.append, List.mem_append, List.mem_map, List.mem_singleton]
    rintro v (⟨w, hw, rfl⟩ | rfl)
    · exact h.ids w hw
    · exact hid
  versions := by
    have hv := h.versions
    simp [Chain.append, List.range_succ, h.last_version hlast, ← hv, Function.comp_def]
  latest := by
    simp [Chain.append, Function.comp_def, List.map_const']
  claiming := by
    simp only [Chain.append, List.mem_append, List.mem_map, List.mem_singleton]
    rintro v (⟨w, hw, rfl⟩ | rfl)
    · rcases h.claiming w hw with hr | ⟨hc, hone⟩
      · exact .inl hr
      · rw [hone] at hlast
        simp only [List.getLast?_singleton, Option.some.injEq] at hlast
        rw [hlast, hready] at hc
        cases hc
    · exact .inl rfl

theorem source_append (nowSeconds : Int) (record : FileMetadataRecord) (last : Version)
    (chain : Chain) : (chain.append nowSeconds record last).source = record.fileSource := by
  simp [Chain.append, source, FileMetadataRecord.fileSource]

end Chain

theorem coherent_empty {p id : String} {chain : Chain}
    (h : ({} : Indexed Chain).byId.get? p id = some chain) : chain.Coherent id := by
  simp at h

structure InMemoryMetadataRepository where
  table : Indexed Chain := {}
  inverse : table.Inverse Chain.source := by exact Indexed.inverse_empty
  coherent : ∀ {p id chain}, table.byId.get? p id = some chain → chain.Coherent id := by
    exact @coherent_empty

namespace InMemoryMetadataRepository

/-- The chain stored under a record id. -/
def findChain (repo : InMemoryMetadataRepository) (partition recordId : String) : Option Chain :=
  repo.table.byId.get? partition recordId

/-- The active version of a file source, claiming or ready. -/
def row (repo : InMemoryMetadataRepository) (partition fileSource : String) : Option Version :=
  (repo.table.findBySource partition fileSource).bind List.getLast?

def putChain (repo : InMemoryMetadataRepository) (partition id : String) (chain : Chain)
    (hchain : chain.Coherent id)
    (hfree : ∀ k, repo.table.sourceIndex[(⟨partition, chain.source⟩ : SourceKey)]? = some k →
      k = id) : InMemoryMetadataRepository where
  table := repo.table.save Chain.source partition id chain
  inverse := repo.inverse.save hfree
  coherent := by
    intro p k c h
    rw [Indexed.get?_save] at h
    by_cases hid : partition = p ∧ id = k
    · simp only [hid, and_self, if_true, Option.some.injEq] at h
      exact hid.2 ▸ h ▸ hchain
    · rw [if_neg hid] at h
      exact repo.coherent h

def eraseChain (repo : InMemoryMetadataRepository) (partition id : String) :
    InMemoryMetadataRepository where
  table := repo.table.delete Chain.source partition id
  inverse := repo.inverse.delete partition id
  coherent := by
    intro p k c h
    rw [Indexed.get?_delete] at h
    split at h
    · cases h
    · exact repo.coherent h

theorem own_source (repo : InMemoryMetadataRepository) {partition id : String} {chain : Chain}
    (h : repo.findChain partition id = some chain) {k : String}
    (hk : repo.table.sourceIndex[(⟨partition, chain.source⟩ : SourceKey)]? = some k) : k = id := by
  obtain ⟨c, hc, hs⟩ := (repo.inverse _ _ _).mp hk
  exact repo.inverse.id_unique hc h hs

def invalid (message : String) : Error := err .invalidArgument message
def recordNotFound : Error := err .notFound "Record Not Found"
def notClaiming : Error := err .notFound "Record Not Found（该版本不是 claiming 状态）"

def validatePartitionAndId (partition : String) (record : FileMetadataRecord) : Result Unit :=
  if partition = "" then .error (invalid "partition 不能为空")
  else if record.id = "" then .error (invalid "record.id 不能为空")
  else if record.partition ≠ partition then
    .error (invalid "record.id 的租户前缀与 partition 参数不一致")
  else .ok ()

/-- The version that a claim inserts. -/
def claimingVersion (nowSeconds : Int) (record : FileMetadataRecord) : Version where
  record := { record with version := 1 }
  createdAtEpochSeconds := nowSeconds
  isLatest := true
  state := .claiming

theorem coherent_claimingVersion {record : FileMetadataRecord} (hfs : record.fileSource ≠ "")
    (nowSeconds : Int) : Chain.Coherent record.id [claimingVersion nowSeconds record] :=
  Chain.coherent_singleton (v := claimingVersion nowSeconds record) hfs rfl rfl (.inr rfl)

def claimForWrite (repo : InMemoryMetadataRepository) (nowSeconds : Int) (partition : String)
    (record : FileMetadataRecord) : Result MetadataClaim × InMemoryMetadataRepository :=
  match validatePartitionAndId partition record with
  | .error e => (.error e, repo)
  | .ok () =>
    if hfs : record.fileSource = "" then
      (.error (invalid "file_source 不能为空（它是创建幂等键）"), repo)
    else
      match hactive : repo.table.findBySource partition record.fileSource with
      | some chain =>
        match chain.getLast? with
        | some v => (.ok { claimed := false, record := v.record, state := v.state }, repo)
        | none => (.error (invalid ("同 id 已存在且 file_source 不同：" ++ record.id)), repo)
      | none =>
        match repo.findChain partition record.id with
        | some _ => (.error (invalid ("同 id 已存在且 file_source 不同：" ++ record.id)), repo)
        | none =>
          let version := claimingVersion nowSeconds record
          (.ok { claimed := true, record := version.record, state := .claiming },
            repo.putChain partition record.id [version]
              (coherent_claimingVersion hfs nowSeconds)
              (by
                intro k hk
                obtain ⟨c, hc, hs⟩ := (repo.inverse _ _ _).mp hk
                have hfound := repo.inverse.findBySource.mpr ⟨k, hc, hs⟩
                exact absurd (hactive.symm.trans hfound) (by simp)))

def markReady (repo : InMemoryMetadataRepository) (partition recordId : String) (version : Int)
    (record : FileMetadataRecord) : Result FileMetadataRecord × InMemoryMetadataRepository :=
  match validatePartitionAndId partition record with
  | .error e => (.error e, repo)
  | .ok () =>
    match hchain : repo.findChain partition recordId with
    | none => (.error recordNotFound, repo)
    | some chain =>
      match hfind : chain.find? (·.record.version == version) with
      | none => (.error recordNotFound, repo)
      | some v =>
        if hstate : v.state ≠ .claiming then (.error notClaiming, repo)
        else if hsource : v.record.fileSource ≠ record.fileSource then
          (.error (invalid "MarkReady 不得改写 (partition, file_source) 幂等键"), repo)
        else
          have hcoh := repo.coherent hchain
          have hstate := not_not.mp hstate
          have hsource := not_not.mp hsource
          (.ok { record with id := recordId, version := version },
            repo.putChain partition recordId (chain.markReady recordId version record)
              (hcoh.markReady hfind hstate hsource)
              (fun _ hk => repo.own_source hchain (hcoh.source_markReady hfind hstate hsource ▸ hk)))

/-- Drop a claiming version; the repository forgets an id whose chain becomes empty. -/
def eraseClaiming (repo : InMemoryMetadataRepository) (partition recordId : String)
    (version : Int) : Result InMemoryMetadataRepository :=
  match hchain : repo.findChain partition recordId with
  | none => .error recordNotFound
  | some chain =>
    match hfind : chain.find? (·.record.version == version) with
    | none => .error recordNotFound
    | some v =>
      if hstate : v.state ≠ .claiming then .error notClaiming
      else if hrest : chain.eraseP (·.record.version == version) = [] then
        .ok (repo.eraseChain partition recordId)
      else
        absurd ((repo.coherent hchain).erase_eq_nil hfind (not_not.mp hstate)) hrest

def releaseClaim (repo : InMemoryMetadataRepository) (partition recordId : String)
    (version : Int) : Result Unit × InMemoryMetadataRepository :=
  if partition = "" then (.error (invalid "partition 不能为空"), repo)
  else
    match repo.eraseClaiming partition recordId version with
    | .error e => (.error e, repo)
    | .ok repo' => (.ok (), repo')

/-- The claiming versions that a reclaim may take, in the order of their ids. -/
def staleClaims (repo : InMemoryMetadataRepository) (partition : String) (olderThan : Int)
    (allowed : List String) : List (String × Int) :=
  (repo.table.byId.entries partition).filterMap fun (id, chain) =>
    (chain.find? fun v => v.state == .claiming && decide (v.createdAtEpochSeconds ≤ olderThan) &&
      allowed.contains v.record.fileSource).map fun v => (id, v.record.version)

def reclaimOne (partition : String) (limit : Int) (acc : Int × InMemoryMetadataRepository)
    (victim : String × Int) : Int × InMemoryMetadataRepository :=
  if limit ≤ acc.1 then acc
  else
    match acc.2.eraseClaiming partition victim.1 victim.2 with
    | .ok repo => (acc.1 + 1, repo)
    | .error _ => acc

def reclaimStaleClaiming (repo : InMemoryMetadataRepository) (partition : String)
    (olderThanEpochSeconds limit : Int) (liveExpiredSources : List String) :
    Result Int × InMemoryMetadataRepository :=
  if partition = "" then (.error (invalid "partition 不能为空"), repo)
  else if limit ≤ 0 then (.ok 0, repo)
  else if liveExpiredSources.isEmpty then (.ok 0, repo)
  else
    let victims := (repo.staleClaims partition olderThanEpochSeconds liveExpiredSources).take
      limit.toNat
    let out := victims.foldl (reclaimOne partition limit) (0, repo)
    (.ok out.1, out.2)

def readable (v : Option Version) : Result FileMetadataRecord :=
  match v with
  | some v => if v.state ≠ .ready then .error recordNotFound else .ok v.record
  | none => .error recordNotFound

def getById (repo : InMemoryMetadataRepository) (partition recordId : String) :
    Result FileMetadataRecord :=
  readable ((repo.findChain partition recordId).bind List.getLast?)

def getLatestByFileSource (repo : InMemoryMetadataRepository) (partition fileSource : String) :
    Result FileMetadataRecord :=
  readable (repo.row partition fileSource)

/-- `Create`: a claim and its marking, or the record that already holds the file source. -/
def create (repo : InMemoryMetadataRepository) (nowSeconds : Int) (partition : String)
    (record : FileMetadataRecord) : Result FileMetadataRecord × InMemoryMetadataRepository :=
  match validatePartitionAndId partition record with
  | .error e => (.error e, repo)
  | .ok () =>
    match repo.claimForWrite nowSeconds partition record with
    | (.error e, repo') => (.error e, repo')
    | (.ok claim, repo') =>
      if claim.claimed then
        repo'.markReady partition claim.record.id claim.record.version claim.record
      else (.ok claim.record, repo')

def update (repo : InMemoryMetadataRepository) (nowSeconds : Int) (partition : String)
    (record : FileMetadataRecord) : Result FileMetadataRecord × InMemoryMetadataRepository :=
  match validatePartitionAndId partition record with
  | .error e => (.error e, repo)
  | .ok () =>
    match hchain : repo.findChain partition record.id with
    | none => (.error recordNotFound, repo)
    | some chain =>
      match hlast : chain.getLast? with
      | none => (.error recordNotFound, repo)
      | some last =>
        if hready : last.state ≠ .ready then (.error recordNotFound, repo)
        else if record.fileSource = "" then
          (.error (invalid "file_source 不能为空（它是创建幂等键）"), repo)
        else if hsource : record.fileSource ≠ last.record.fileSource then
          (.error (invalid "Update 不得改写 (partition, file_source) 幂等键"), repo)
        else
          have hsource := (not_not.mp hsource).trans (Chain.source_of_last hlast).symm
          (.ok { record with version := last.record.version + 1 },
            repo.putChain partition record.id (chain.append nowSeconds record last)
              ((repo.coherent hchain).append hlast (not_not.mp hready) rfl hsource nowSeconds)
              (by
                intro k hk
                rw [Chain.source_append, hsource] at hk
                exact repo.own_source hchain hk))

def delete (repo : InMemoryMetadataRepository) (partition recordId : String) :
    Result Unit × InMemoryMetadataRepository :=
  match repo.findChain partition recordId with
  | none => (.error recordNotFound, repo)
  | some _ => (.ok (), repo.eraseChain partition recordId)

def matchesQuery (query : MetadataQuery) (v : Version) : Bool :=
  v.isLatest && v.state == .ready &&
  (match query.kind with | none => true | some kind => v.record.kind == kind) &&
  (match query.namePrefix with
    | none => true
    | some pre => match v.record.data.name with
      | none => false
      | some name => Text.startsWith name pre) &&
  (query.createdAfterEpochSeconds < 0 ||
    query.createdAfterEpochSeconds ≤ v.createdAtEpochSeconds) &&
  (query.createdBeforeEpochSeconds < 0 ||
    v.createdAtEpochSeconds ≤ query.createdBeforeEpochSeconds)

/-- The order of listings: creation second, then record id. -/
def listedBefore (a b : Version) : Prop :=
  a.createdAtEpochSeconds < b.createdAtEpochSeconds ∨
    a.createdAtEpochSeconds = b.createdAtEpochSeconds ∧ a.record.id ≤ b.record.id

instance : DecidableRel listedBefore := fun a b => by unfold listedBefore; infer_instance

def list (repo : InMemoryMetadataRepository) (partition : String) (query : MetadataQuery) :
    Result MetadataPage :=
  if query.limit ≤ 0 then .error (invalid "limit 必须 > 0")
  else if query.offset < 0 then .error (invalid "offset 必须 >= 0")
  else
    let latest := (repo.table.byId.entries partition).filterMap fun (_, chain) => chain.getLast?
    let all := (latest.filter (matchesQuery query)).insertionSort listedBefore
    .ok { records := ((all.drop query.offset.toNat).take query.limit.toNat).map (·.record)
          total := all.length }

end InMemoryMetadataRepository

end FileService.Infra
