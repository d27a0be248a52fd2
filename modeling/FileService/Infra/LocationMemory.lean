import FileService.Common.Indexed
import FileService.Domain.FileMetadata

/-!
# The in-memory location repository

Location records by partition and file id, with the file source as a second,
unique key. Every method returns its reply and the repository after the call.
-/
namespace FileService.Infra
open FileService.Common FileService.Domain

theorem keyed_empty {p id : String} {location : FileLocation}
    (h : ({} : Indexed FileLocation).byId.get? p id = some location) :
    location.fileId = id ∧ location.fileSource ≠ "" := by
  simp at h

structure InMemoryLocationRepository where
  table : Indexed FileLocation := {}
  inverse : table.Inverse FileLocation.fileSource := by exact Indexed.inverse_empty
  keyed : ∀ {p id location}, table.byId.get? p id = some location →
    location.fileId = id ∧ location.fileSource ≠ "" := by exact @keyed_empty

namespace InMemoryLocationRepository

def byFileId (repo : InMemoryLocationRepository) (partition fileId : String) : Option FileLocation :=
  repo.table.byId.get? partition fileId

def byFileSource (repo : InMemoryLocationRepository) (partition fileSource : String) :
    Option FileLocation :=
  repo.table.findBySource partition fileSource

theorem byFileSource_eq_some {repo : InMemoryLocationRepository} {p fs : String}
    {location : FileLocation} :
    repo.byFileSource p fs = some location ↔
      repo.byFileId p location.fileId = some location ∧ location.fileSource = fs := by
  refine repo.inverse.findBySource.trans ⟨?_, fun ⟨h, hfs⟩ => ⟨location.fileId, h, hfs⟩⟩
  rintro ⟨id, h, hfs⟩
  obtain ⟨rfl, -⟩ := repo.keyed h
  exact ⟨h, hfs⟩

theorem byFileId_fileId {repo : InMemoryLocationRepository} {p id : String}
    {location : FileLocation} (h : repo.byFileId p id = some location) : location.fileId = id :=
  (repo.keyed h).1

def find (repo : InMemoryLocationRepository) (partition fileId : String) : Result FileLocation :=
  match repo.table.byId[partition]? with
  | none => .error (err .notFound ("位置记录不存在：partition=" ++ partition))
  | some bucket =>
    match bucket[fileId]? with
    | none => .error (err .notFound ("Not found location for fileID : " ++ fileId))
    | some location => .ok location

def findByFileSource (repo : InMemoryLocationRepository) (partition fileSource : String) :
    Result FileLocation :=
  match repo.table.sourceIndex[(⟨partition, fileSource⟩ : SourceKey)]? with
  | none => .error (err .notFound ("位置记录不存在（按 file_source）：" ++ fileSource))
  | some owner => repo.find partition owner

theorem find_eq_ok {repo : InMemoryLocationRepository} {p id : String} {location : FileLocation} :
    repo.find p id = .ok location ↔ repo.byFileId p id = some location := by
  unfold find byFileId Buckets.get?
  cases repo.table.byId[p]? with
  | none => simp
  | some bucket => cases h : bucket[id]? <;> simp [h]

theorem findByFileSource_eq_ok {repo : InMemoryLocationRepository} {p fs : String}
    {location : FileLocation} :
    repo.findByFileSource p fs = .ok location ↔ repo.byFileSource p fs = some location := by
  unfold findByFileSource byFileSource Indexed.findBySource
  cases repo.table.sourceIndex[(⟨p, fs⟩ : SourceKey)]? with
  | none => simp
  | some owner => exact find_eq_ok

/-- Write a record whose file source is free or its own. -/
def put (repo : InMemoryLocationRepository) (partition : String) (location : FileLocation)
    (hfs : location.fileSource ≠ "")
    (hfree : ∀ k, repo.table.sourceIndex[(⟨partition, location.fileSource⟩ : SourceKey)]? =
      some k → k = location.fileId) : InMemoryLocationRepository where
  table := repo.table.save FileLocation.fileSource partition location.fileId location
  inverse := repo.inverse.save hfree
  keyed := by
    intro p id l h
    rw [Indexed.get?_save] at h
    by_cases hid : partition = p ∧ location.fileId = id
    · simp only [hid, and_self, if_true, Option.some.injEq] at h
      exact ⟨h ▸ hid.2, h ▸ hfs⟩
    · rw [if_neg hid] at h
      exact repo.keyed h

/-- Store a record; the file source must not belong to another file id. -/
def save (repo : InMemoryLocationRepository) (partition : String) (location : FileLocation) :
    Result Unit × InMemoryLocationRepository :=
  if partition = "" then (.error (err .invalidArgument "partition 不能为空"), repo)
  else if location.fileId = "" then (.error (err .invalidArgument "file_id 不能为空"), repo)
  else if hfs : location.fileSource = "" then
    (.error (err .invalidArgument "file_source 不能为空"), repo)
  else
    match howner : repo.table.sourceIndex[(⟨partition, location.fileSource⟩ : SourceKey)]? with
    | some owner =>
      if hown : owner = location.fileId then
        (.ok (), repo.put partition location hfs (by simp [howner, hown]))
      else
        (.error (err .locationAlreadyExists
          ("file_source 已被另一个 file_id 占用：" ++ location.fileSource)), repo)
    | none => (.ok (), repo.put partition location hfs (by simp [howner]))

def delete (repo : InMemoryLocationRepository) (partition fileId : String) :
    Result Unit × InMemoryLocationRepository :=
  match repo.byFileId partition fileId with
  | none => (.error (err .notFound ("位置记录不存在：" ++ fileId)), repo)
  | some _ =>
    (.ok (),
      { table := repo.table.delete FileLocation.fileSource partition fileId
        inverse := repo.inverse.delete partition fileId
        keyed := by
          intro p id l h
          rw [Indexed.get?_delete] at h
          split at h
          · cases h
          · exact repo.keyed h })

def updateSignedUrl (repo : InMemoryLocationRepository) (partition fileId signedUrl : String)
    (updatedAtEpochSeconds : Int) : Result Unit × InMemoryLocationRepository :=
  match h : repo.byFileId partition fileId with
  | none => (.error (err .notFound ("位置记录不存在：" ++ fileId)), repo)
  | some location =>
    (.ok (), repo.put partition { location with signedUrl, updatedAtEpochSeconds }
      (repo.keyed h).2 (by
        intro k hk
        obtain ⟨row, hrow, hsource⟩ := (repo.inverse _ _ _).mp hk
        exact (repo.inverse.id_unique hrow h hsource).trans (repo.keyed h).1.symm))

section Specs
variable {repo repo' : InMemoryLocationRepository} {partition : String} {location : FileLocation}

theorem byFileId_put {hfs hfree} (q k : String) :
    (repo.put partition location hfs hfree).byFileId q k =
      if partition = q ∧ location.fileId = k then some location else repo.byFileId q k :=
  Indexed.get?_save _ _ _ _ _ _

theorem byFileSource_put {hfs hfree} (q fs : String) :
    (repo.put partition location hfs hfree).byFileSource q fs =
      if partition = q ∧ location.fileSource = fs then some location
      else if partition = q ∧
        (repo.byFileId partition location.fileId).map FileLocation.fileSource = some fs then none
      else repo.byFileSource q fs :=
  repo.inverse.findBySource_save hfree q fs

/-- A save either fails without effect or is a `put`. -/
theorem save_cases (repo : InMemoryLocationRepository) (partition : String)
    (location : FileLocation) :
    (∃ e, repo.save partition location = (.error e, repo)) ∨
      ∃ hfs hfree, repo.save partition location = (.ok (), repo.put partition location hfs hfree) := by
  unfold save
  split_ifs with h₁ h₂ h₃
  · exact .inl ⟨_, rfl⟩
  · exact .inl ⟨_, rfl⟩
  · exact .inl ⟨_, rfl⟩
  · split
    · rename_i owner howner
      split_ifs with hown
      · exact .inr ⟨h₃, by simp [howner, hown], rfl⟩
      · exact .inl ⟨_, rfl⟩
    · rename_i howner
      exact .inr ⟨h₃, by simp [howner], rfl⟩

/-- A record whose file source is free or its own is stored. -/
theorem save_eq_ok (hp : partition ≠ "") (hid : location.fileId ≠ "")
    (hfs : location.fileSource ≠ "")
    (hfree : ∀ l, repo.byFileSource partition location.fileSource = some l →
      l.fileId = location.fileId) :
    ∃ hfs hfree, repo.save partition location = (.ok (), repo.put partition location hfs hfree) := by
  rcases save_cases repo partition location with ⟨e, he⟩ | h
  · unfold save at he
    rw [if_neg hp, if_neg hid, dif_neg hfs] at he
    split at he
    · rename_i owner howner
      obtain ⟨l, hl, hsource⟩ := (repo.inverse _ _ _).mp howner
      have hown := hfree l (byFileSource_eq_some.mpr ⟨by
        obtain ⟨rfl, -⟩ := repo.keyed hl
        exact hl, hsource⟩)
      rw [dif_pos ((repo.keyed hl).1.symm.trans hown)] at he
      cases he
    · cases he
  · exact h

theorem delete_cases (repo : InMemoryLocationRepository) (partition fileId : String) :
    (repo.byFileId partition fileId = none ∧
      ∃ e, repo.delete partition fileId = (.error e, repo)) ∨
    ∃ old, repo.byFileId partition fileId = some old ∧
      (repo.delete partition fileId).1 = .ok () ∧
      (∀ q k, (repo.delete partition fileId).2.byFileId q k =
        if partition = q ∧ fileId = k then none else repo.byFileId q k) ∧
      ∀ q fs, (repo.delete partition fileId).2.byFileSource q fs =
        if partition = q ∧ old.fileSource = fs then none else repo.byFileSource q fs := by
  cases hold : repo.byFileId partition fileId with
  | none => exact .inl ⟨rfl, _, by simp only [delete, hold]; rfl⟩
  | some old =>
    refine .inr ⟨old, rfl, by simp [delete, hold], fun q k => ?_, fun q fs => ?_⟩
    · simp only [delete, hold]
      exact Indexed.get?_delete _ _ _ _ _
    · simp only [delete, hold]
      refine (repo.inverse.findBySource_delete partition fileId q fs).trans ?_
      rw [show repo.table.byId.get? partition fileId = some old from hold]
      simp only [Option.map_some, Option.some.injEq]
      rfl

end Specs

/-- The order of listings: creation second, then file id. -/
def listedBefore (a b : FileLocation) : Prop :=
  a.createdAtEpochSeconds < b.createdAtEpochSeconds ∨
    a.createdAtEpochSeconds = b.createdAtEpochSeconds ∧ a.fileId ≤ b.fileId

instance : DecidableRel listedBefore := fun a b => by unfold listedBefore; infer_instance

def matchesQuery (query : LocationQuery) (location : FileLocation) : Bool :=
  (query.userId = "" || location.userId = query.userId) &&
  (query.createdAfterEpochSeconds < 0 ||
    query.createdAfterEpochSeconds ≤ location.createdAtEpochSeconds) &&
  (query.createdBeforeEpochSeconds < 0 ||
    location.createdAtEpochSeconds ≤ query.createdBeforeEpochSeconds)

/-- The records that a query matches, in listing order. -/
def matched (repo : InMemoryLocationRepository) (partition : String) (query : LocationQuery) :
    List FileLocation :=
  (((repo.table.byId.entries partition).map Prod.snd).filter (matchesQuery query)).insertionSort
    listedBefore

def list (repo : InMemoryLocationRepository) (partition : String) (query : LocationQuery) :
    Result LocationPage :=
  if query.limit ≤ 0 then .error (err .invalidArgument "limit 必须 > 0")
  else if query.offset < 0 then .error (err .invalidArgument "offset 必须 >= 0")
  else
    let all := repo.matched partition query
    .ok { records := (all.drop query.offset.toNat).take query.limit.toNat, total := all.length }

section Listing
variable {repo : InMemoryLocationRepository} {p : String} {query : LocationQuery}
variable {location : FileLocation}

theorem mem_matched : location ∈ repo.matched p query ↔
    repo.byFileId p location.fileId = some location ∧ matchesQuery query location = true := by
  simp only [matched, List.mem_insertionSort, List.mem_filter, List.mem_map, Prod.exists,
    exists_eq_right]
  refine and_congr_left fun _ => ⟨?_, fun h => ⟨location.fileId, Buckets.mem_entries.mpr h⟩⟩
  rintro ⟨id, h⟩
  have hfound := Buckets.mem_entries.mp h
  obtain ⟨rfl, -⟩ := repo.keyed hfound
  exact hfound

theorem list_eq_ok {page : LocationPage} (h : repo.list p query = .ok page) :
    page.records = ((repo.matched p query).drop query.offset.toNat).take query.limit.toNat ∧
      page.total = (repo.matched p query).length := by
  unfold list at h
  split_ifs at h
  cases h
  exact ⟨rfl, rfl⟩

/-- A page of the unfiltered listing. -/
theorem list_window (repo : InMemoryLocationRepository) (p : String) (offset : Nat) :
    repo.list p { limit := 500, offset } =
      .ok { records := ((repo.matched p {}).drop offset).take 500
            total := (repo.matched p {}).length } := by
  have hoffset : ¬((offset : Int) < 0) := by omega
  simp only [list, hoffset, if_false, show ¬((500 : Int) ≤ 0) by decide, Int.toNat_natCast]
  rfl

/-- The records of a page are records of the repository. -/
theorem mem_list {page : LocationPage} (h : repo.list p query = .ok page)
    (hlocation : location ∈ page.records) : repo.byFileId p location.fileId = some location := by
  rw [(list_eq_ok h).1] at hlocation
  exact (mem_matched.mp (List.mem_of_mem_drop (List.mem_of_mem_take hlocation))).1

end Listing

end InMemoryLocationRepository

end FileService.Infra
