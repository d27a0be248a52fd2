import FileService.Domain.World
import FileService.Infra.MetadataRows

/-!
# What holds of the in-memory metadata repository in every reached state

The operations build repositories that carry their representation invariant.
Here it is stated over sequences of operations, with what the readers rely on:
no reader is ever given a record whose last version is claiming.
-/
namespace FileService.Repositories
open FileService.Common FileService.Domain FileService.Infra

/-- The repository after a sequence of operations, each with the second it was called at. -/
def afterCalls (repo : InMemoryMetadataRepository) (calls : List (Int × MetadataCall)) :
    InMemoryMetadataRepository :=
  calls.foldl (fun repo call => (World.localCall call.1 repo call.2).2) repo

/-- The record is the last version of a chain, and that version is not claiming. -/
def Visible (repo : InMemoryMetadataRepository) (p id : String) (record : FileMetadataRecord) :
    Prop :=
  ∃ chain last, repo.findChain p id = some chain ∧ chain.getLast? = some last ∧
    last.state ≠ .claiming ∧ last.record = record

/-- The two indexes are inverse to each other, the chains are coherent, and claims are hidden. -/
structure WellFormed (repo : InMemoryMetadataRepository) : Prop where
  indexed : ∀ p fs id, repo.table.sourceIndex[(⟨p, fs⟩ : SourceKey)]? = some id ↔
    ∃ chain, repo.findChain p id = some chain ∧ chain.source = fs
  chains : ∀ p id chain, repo.findChain p id = some chain → Chain.Coherent id chain
  byId : ∀ p id record, repo.getById p id = .ok record → Visible repo p id record
  bySource : ∀ p fs record, repo.getLatestByFileSource p fs = .ok record →
    record.fileSource = fs ∧ Visible repo p record.id record
  listed : ∀ p query page, repo.list p query = .ok page →
    ∀ record ∈ page.records, Visible repo p record.id record

variable {repo : InMemoryMetadataRepository} {p id fs : String} {record : FileMetadataRecord}

theorem visible_of_row {v : Version} (hrow : repo.row p fs = some v) (hstate : v.state = .ready) :
    Visible repo p v.record.id v.record := by
  obtain ⟨chain, hchain, hlast, -⟩ := InMemoryMetadataRepository.row_eq_some.mp hrow
  exact ⟨chain, v, hchain, hlast, by simp [hstate], rfl⟩

theorem visible_of_getById (h : repo.getById p id = .ok record) : Visible repo p id record := by
  obtain ⟨v, hrow, hstate, rfl, rfl⟩ := InMemoryMetadataRepository.getById_eq_ok.mp h
  exact visible_of_row hrow hstate

theorem visible_of_getLatestByFileSource (h : repo.getLatestByFileSource p fs = .ok record) :
    record.fileSource = fs ∧ Visible repo p record.id record := by
  obtain ⟨v, hrow, hstate, rfl⟩ := InMemoryMetadataRepository.getLatestByFileSource_eq_ok.mp h
  exact ⟨InMemoryMetadataRepository.row_fileSource hrow, visible_of_row hrow hstate⟩

theorem visible_of_list {query : MetadataQuery} {page : MetadataPage}
    (h : repo.list p query = .ok page) (hrecord : record ∈ page.records) :
    Visible repo p record.id record := by
  unfold InMemoryMetadataRepository.list at h
  split_ifs at h
  cases h
  obtain ⟨v, hv, rfl⟩ := List.mem_map.mp hrecord
  have hsorted := List.mem_of_mem_drop (List.mem_of_mem_take hv)
  rw [List.mem_insertionSort, List.mem_filter, List.mem_filterMap] at hsorted
  obtain ⟨⟨⟨id, chain⟩, hentry, hlast⟩, hmatches⟩ := hsorted
  have hchain : repo.findChain p id = some chain := Buckets.mem_entries.mp hentry
  have hid := (repo.coherent hchain).ids v (List.mem_of_getLast? hlast)
  simp only [InMemoryMetadataRepository.matchesQuery, Bool.and_eq_true, beq_iff_eq] at hmatches
  refine ⟨chain, v, hid ▸ hchain, hlast, ?_, rfl⟩
  simp [hmatches.1.1.1.1.2]

theorem wellFormed (repo : InMemoryMetadataRepository) : WellFormed repo where
  indexed p fs id := repo.inverse p fs id
  chains _ _ _ h := repo.coherent h
  byId _ _ _ := visible_of_getById
  bySource _ _ _ := visible_of_getLatestByFileSource
  listed _ _ _ h _ := visible_of_list h

/-- Every state that a sequence of operations reaches from the empty repository is well formed. -/
theorem wellFormed_afterCalls (calls : List (Int × MetadataCall)) :
    WellFormed (afterCalls {} calls) :=
  wellFormed _

end FileService.Repositories
