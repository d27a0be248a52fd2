import FileService.Infra.LocationMemory
import FileService.Sqlite.LocationWrites

/-!
# Runs of the location repositories

Every call of a run is acknowledged or not. The acknowledged ones say which
record was saved last under a file id, and a lookup has to return that record.
-/
namespace FileService.Repositories
open FileService.Common FileService.Common.Json.Value FileService.Domain FileService.Infra
open FileService.Sqlite FileService.Sqlite.LocationRepository

inductive LocationCall where
  | save (partition : String) (location : FileLocation)
  | updateSignedUrl (partition fileId signedUrl : String) (updatedAtEpochSeconds : Int)
  | delete (partition fileId : String)
  | find (partition fileId : String)
  | findByFileSource (partition fileSource : String)

/-! ## What was saved last -/

abbrev Contents := String → String → Option FileLocation

/-- What an acknowledged call makes of the records. -/
def LocationCall.after : LocationCall → Contents → Contents
  | .save partition location, c => fun p id =>
    if partition = p ∧ location.fileId = id then some location else c p id
  | .updateSignedUrl partition fileId signedUrl updatedAtEpochSeconds, c => fun p id =>
    if partition = p ∧ fileId = id then
      (c p id).map fun location => { location with signedUrl, updatedAtEpochSeconds }
    else c p id
  | .delete partition fileId, c => fun p id =>
    if partition = p ∧ fileId = id then none else c p id
  | .find .., c => c
  | .findByFileSource .., c => c

/-- The records after the acknowledged calls. -/
def lastSaved (acknowledged : List LocationCall) : Contents :=
  acknowledged.foldl (fun c call => call.after c) fun _ _ => none

/-- The records that calls can have written. -/
inductive Written (calls : List LocationCall) : FileLocation → Prop where
  | saved {partition location} : LocationCall.save partition location ∈ calls →
      Written calls location
  | updated {location partition fileId signedUrl updatedAtEpochSeconds} : Written calls location →
      LocationCall.updateSignedUrl partition fileId signedUrl updatedAtEpochSeconds ∈ calls →
      Written calls { location with signedUrl, updatedAtEpochSeconds }

/-! ## Runs of the SQLite repository -/

/-- The read error and the refused write that a call meets. -/
structure Faults where
  read : Option Fault := none
  write : Option Error := none

/-- The table and the calls that were acknowledged. -/
structure LocationState where
  table : LocationTable := {}
  acknowledged : List LocationCall := []

def acknowledges {α : Type} : Outcome α → Bool
  | some (.ok _) => true
  | _ => false

section Runs
variable (codec : TextCodec)

/-- Whether a call is acknowledged, and the table after it. -/
def LocationCall.run (table : LocationTable) (faults : Faults) : LocationCall → Bool × LocationTable
  | .save partition location =>
    let (reply, table) := LocationRepository.save codec table faults.write partition location
    (reply.isOk, table)
  | .updateSignedUrl partition fileId signedUrl updatedAtEpochSeconds =>
    let (reply, table) :=
      LocationRepository.updateSignedUrl codec table faults.read faults.write partition fileId
        signedUrl updatedAtEpochSeconds
    (acknowledges reply, table)
  | .delete partition fileId =>
    let (reply, table) := LocationRepository.delete table faults.write partition fileId
    (reply.isOk, table)
  | .find partition fileId =>
    (acknowledges (findInternal codec table faults.read partition fileId), table)
  | .findByFileSource partition fileSource =>
    (acknowledges (findBySource codec table faults.read partition fileSource), table)

def LocationState.step (state : LocationState) (call : LocationCall × Faults) : LocationState :=
  let (acknowledged, table) := call.1.run codec state.table call.2
  { table
    acknowledged := if acknowledged then state.acknowledged ++ [call.1] else state.acknowledged }

def runLocations (calls : List (LocationCall × Faults)) : LocationState :=
  calls.foldl (LocationState.step codec) {}

/-- Lookups without read errors return what was saved last. -/
structure Returns (table : LocationTable) (c : Contents) : Prop where
  find : ∀ p id, findInternal codec table none p id =
    some (match c p id with
      | some location => .ok location
      | none => .error (notFound ("Not found location for fileID : " ++ id)))
  findByFileSource : ∀ p fileSource location,
    findBySource codec table none p fileSource = some (.ok location) ↔
      ∃ id, c p id = some location ∧ location.fileSource = fileSource

end Runs

/-! ## The invariant -/

/-- The rows are those of the records. -/
structure Holds (codec : TextCodec) (table : LocationTable) (c : Contents) : Prop where
  row : ∀ row ∈ table.rows, ∃ location, c row.partitionId row.fileId = some location ∧
    row.fileId = location.fileId ∧ row.fileSource = location.fileSource ∧
    row.data = dumpLocation codec location
  held : ∀ p id location, c p id = some location →
    ∃ row ∈ table.rows, row.partitionId = p ∧ row.fileId = id

/-- The record is read as it was written. -/
def Survives (codec : TextCodec) (location : FileLocation) : Prop :=
  parseLocation codec (dumpLocation codec location) = some (.ok location)

section Invariant
variable {codec : TextCodec} {table : LocationTable} {c : Contents} {location : FileLocation}
variable {p id partition fileId : String}

theorem Holds.selectByFileId (h : Holds codec table c) : table.selectByFileId p id =
    match c p id with
    | some location => [dumpLocation codec location]
    | none => [] := by
  cases hc : c p id with
  | some location =>
    obtain ⟨row, hrow, rfl, rfl⟩ := h.held p id location hc
    obtain ⟨l, hl, -, -, hdata⟩ := h.row row hrow
    rw [hc] at hl
    cases hl
    rw [LocationTable.selectByFileId_of_mem hrow, hdata]
  | none =>
    rw [LocationTable.selectByFileId_eq_nil]
    rintro ⟨row, hrow, rfl, rfl⟩
    obtain ⟨l, hl, -⟩ := h.row row hrow
    rw [hc] at hl
    cases hl

theorem lookup_singleton {absent : String} (h : Survives codec location) :
    lookup codec absent [dumpLocation codec location] none = some (.ok location) := by
  unfold Survives at h
  simp [lookup, query, steps, readRow, h]

theorem Holds.returns (h : Holds codec table c)
    (hsurvives : ∀ p id location, c p id = some location → Survives codec location) :
    Returns codec table c := by
  constructor
  · intro p id
    rw [findInternal, h.selectByFileId]
    cases hc : c p id with
    | some location => exact lookup_singleton (hsurvives p id location hc)
    | none => rfl
  · intro p fileSource location
    unfold findBySource
    constructor
    · intro hfound
      cases hselected : table.selectByFileSource p fileSource with
      | nil =>
        rw [hselected] at hfound
        cases hfound
      | cons text rest =>
        have hsome : ∃ row ∈ table.rows, row.partitionId = p ∧ row.fileSource = fileSource := by
          by_contra hnone
          rw [LocationTable.selectByFileSource_eq_nil.mpr hnone] at hselected
          cases hselected
        obtain ⟨row, hrow, rfl, rfl⟩ := hsome
        obtain ⟨l, hl, -, hsource, hdata⟩ := h.row row hrow
        rw [LocationTable.selectByFileSource_of_mem hrow, hdata,
          lookup_singleton (hsurvives _ _ _ hl)] at hfound
        cases hfound
        exact ⟨_, hl, hsource.symm⟩
    · rintro ⟨id, hc, rfl⟩
      obtain ⟨row, hrow, rfl, rfl⟩ := h.held p id location hc
      obtain ⟨l, hl, -, hsource, hdata⟩ := h.row row hrow
      rw [hc] at hl
      cases hl
      rw [← hsource, LocationTable.selectByFileSource_of_mem hrow, hdata]
      exact lookup_singleton (hsurvives _ _ _ hc)

/-! ### The writes -/

theorem Holds.save {table' : LocationTable} (h : Holds codec table c)
    (hupsert : table.upsert (rowOf codec partition location) = some table') :
    Holds codec table' ((LocationCall.save partition location).after c) := by
  unfold LocationTable.upsert at hupsert
  split_ifs at hupsert
  cases hupsert
  constructor
  · intro row hrow
    simp only [List.mem_append, List.mem_filter, List.mem_singleton, rowOf, Bool.not_eq_true'] at hrow
    rcases hrow with ⟨hrow, hother⟩ | rfl
    · have hne : ¬(partition = row.partitionId ∧ location.fileId = row.fileId) := by
        rw [← LocationTable.isRowOf_iff, hother]
        exact Bool.false_ne_true
      simp only [LocationCall.after, if_neg hne]
      exact h.row row hrow
    · exact ⟨location, by simp [LocationCall.after], rfl, rfl, rfl⟩
  · intro p id l hl
    simp only [LocationCall.after] at hl
    split_ifs at hl with hsame
    · exact ⟨rowOf codec partition location, by simp, hsame.1, hsame.2⟩
    · obtain ⟨row, hrow, rfl, rfl⟩ := h.held p id l hl
      refine ⟨row, ?_, rfl, rfl⟩
      rw [← LocationTable.isRowOf_iff] at hsame
      simp [hrow, rowOf, hsame]

theorem Holds.update {signedUrl : String} {updatedAtEpochSeconds : Int} (h : Holds codec table c)
    (hfound : c partition fileId = some location) :
    Holds codec
      (table.update partition fileId
        (dumpLocation codec { location with signedUrl, updatedAtEpochSeconds }))
      ((LocationCall.updateSignedUrl partition fileId signedUrl updatedAtEpochSeconds).after c) := by
  constructor
  · intro row hrow
    obtain ⟨old, hold, rfl⟩ := List.mem_map.mp hrow
    obtain ⟨l, hl, hid, hsource, hdata⟩ := h.row old hold
    simp only [LocationTable.partitionId_setData, LocationTable.fileId_setData,
      LocationTable.fileSource_setData, LocationCall.after]
    by_cases hkey : partition = old.partitionId ∧ fileId = old.fileId
    · have hsome : c old.partitionId old.fileId = some location := by
        rw [← hkey.1, ← hkey.2, hfound]
      rw [hl] at hsome
      cases hsome
      rw [if_pos hkey, hl]
      refine ⟨_, rfl, hid, hsource, ?_⟩
      simp [LocationTable.setData, LocationTable.isRowOf, hkey.1, hkey.2]
    · rw [if_neg hkey]
      refine ⟨l, hl, hid, hsource, ?_⟩
      rw [← LocationTable.isRowOf_iff] at hkey
      simpa [LocationTable.setData, hkey] using hdata
  · intro p id l hl
    have hsome : ∃ l, c p id = some l := by
      simp only [LocationCall.after] at hl
      split_ifs at hl
      · obtain ⟨old, hold, -⟩ := Option.map_eq_some_iff.mp hl
        exact ⟨old, hold⟩
      · exact ⟨l, hl⟩
    obtain ⟨old, hold⟩ := hsome
    obtain ⟨row, hrow, hp, hid⟩ := h.held p id old hold
    exact ⟨_, List.mem_map_of_mem hrow, by simpa using hp, by simpa using hid⟩

theorem Holds.delete (h : Holds codec table c) :
    Holds codec (table.delete partition fileId) ((LocationCall.delete partition fileId).after c) := by
  constructor
  · intro row hrow
    obtain ⟨hrow, hother⟩ := List.mem_filter.mp hrow
    have hne : ¬(partition = row.partitionId ∧ fileId = row.fileId) := by
      rw [← LocationTable.isRowOf_iff]
      simpa using hother
    simp only [LocationCall.after, if_neg hne]
    exact h.row row hrow
  · intro p id l hl
    simp only [LocationCall.after] at hl
    split_ifs at hl with hsame
    obtain ⟨row, hrow, rfl, rfl⟩ := h.held p id l hl
    rw [← LocationTable.isRowOf_iff] at hsame
    exact ⟨row, List.mem_filter.mpr ⟨hrow, by simpa using hsame⟩, rfl, rfl⟩

/-! ### Steps and runs -/

theorem found_of_findInternal {fault : Option Fault} (h : Holds codec table c)
    (hsurvives : ∀ p id location, c p id = some location → Survives codec location)
    (hfound : findInternal codec table fault p id = some (.ok location)) :
    c p id = some location := by
  obtain ⟨text, rest, hrows, hparse⟩ := parse_of_lookup codec hfound
  rw [h.selectByFileId] at hrows
  cases hc : c p id with
  | none =>
    rw [hc] at hrows
    cases hrows
  | some l =>
    rw [hc] at hrows
    cases hrows
    have hl := hsurvives p id l hc
    unfold Survives at hl
    rw [hparse] at hl
    cases hl
    rfl

/-- The table holds records that calls of the run can have written. -/
structure Recorded (codec : TextCodec) (calls : List LocationCall) (state : LocationState) : Prop where
  holds : Holds codec state.table (lastSaved state.acknowledged)
  written : ∀ p id location, lastSaved state.acknowledged p id = some location →
    Written calls location

theorem lastSaved_append (acknowledged : List LocationCall) (call : LocationCall) :
    lastSaved (acknowledged ++ [call]) = call.after (lastSaved acknowledged) := by
  simp [lastSaved]

theorem written_after {calls : List LocationCall} {call : LocationCall} (hcall : call ∈ calls)
    (h : ∀ p id location, c p id = some location → Written calls location) :
    ∀ p id location, call.after c p id = some location → Written calls location := by
  intro p id l hl
  cases call with
  | save partition location =>
    simp only [LocationCall.after] at hl
    split_ifs at hl
    · cases hl
      exact .saved hcall
    · exact h p id l hl
  | updateSignedUrl partition fileId signedUrl updatedAtEpochSeconds =>
    simp only [LocationCall.after] at hl
    split_ifs at hl
    · obtain ⟨old, hold, rfl⟩ := Option.map_eq_some_iff.mp hl
      exact .updated (h p id old hold) hcall
    · exact h p id l hl
  | delete partition fileId =>
    simp only [LocationCall.after] at hl
    split_ifs at hl
    exact h p id l hl
  | find partition fileId => exact h p id l hl
  | findByFileSource partition fileSource => exact h p id l hl

theorem acknowledges_eq_false {reply : Outcome Unit} (h : reply ≠ some (.ok ())) :
    acknowledges reply = false := by
  cases reply with
  | none => rfl
  | some reply =>
    cases reply with
    | error e => rfl
    | ok _ => exact absurd rfl h

/-- An acknowledged call does to the table what it does to the records, and the others leave both
as they are. -/
theorem Holds.run (faults : Faults) (call : LocationCall) (h : Holds codec table c)
    (hsurvives : ∀ p id location, c p id = some location → Survives codec location) :
    Holds codec (call.run codec table faults).2
      (if (call.run codec table faults).1 then call.after c else c) := by
  cases call with
  | save partition location =>
    rcases save_cases codec table faults.write partition location with ⟨e, hsave⟩ | ⟨table', hupsert, hsave⟩
    · simpa [LocationCall.run, hsave, Except.isOk, Except.toBool] using h
    · simpa [LocationCall.run, hsave, Except.isOk, Except.toBool] using h.save hupsert
  | updateSignedUrl partition fileId signedUrl updatedAtEpochSeconds =>
    rcases updateSignedUrl_cases codec table faults.write partition fileId faults.read signedUrl
      updatedAtEpochSeconds with
      ⟨reply, hreply, hupdate⟩ | ⟨location, hfound, hupdate⟩
    · simpa [LocationCall.run, hupdate, acknowledges_eq_false hreply] using h
    · have hc := found_of_findInternal h hsurvives hfound
      simpa [LocationCall.run, hupdate, acknowledges] using h.update hc
  | delete partition fileId =>
    rcases delete_cases table faults.write partition fileId with ⟨e, hdelete⟩ | hdelete
    · simpa [LocationCall.run, hdelete, Except.isOk, Except.toBool] using h
    · simpa [LocationCall.run, hdelete, Except.isOk, Except.toBool] using h.delete
  | find partition fileId =>
    cases hack : (LocationCall.run codec table faults (.find partition fileId)).1 <;> exact h
  | findByFileSource partition fileSource =>
    cases hack : (LocationCall.run codec table faults (.findByFileSource partition fileSource)).1 <;>
      exact h

theorem recorded_empty (calls : List LocationCall) : Recorded codec calls {} where
  holds := ⟨nofun, nofun⟩
  written := nofun

theorem Recorded.step {calls : List LocationCall} {state : LocationState}
    {call : LocationCall × Faults} (h : Recorded codec calls state) (hcall : call.1 ∈ calls)
    (hsurvives : ∀ location, Written calls location → Survives codec location) :
    Recorded codec calls (state.step codec call) := by
  have hrun := h.holds.run call.2 call.1
    (fun p id location hl => hsurvives location (h.written p id location hl))
  cases hacknowledged : (call.1.run codec state.table call.2).1 with
  | false =>
    rw [hacknowledged] at hrun
    exact ⟨by simpa [LocationState.step, hacknowledged] using hrun,
      by simpa [LocationState.step, hacknowledged] using h.written⟩
  | true =>
    rw [hacknowledged] at hrun
    have hwritten := written_after hcall h.written
    exact ⟨by simpa [LocationState.step, hacknowledged, lastSaved_append] using hrun,
      by simpa [LocationState.step, hacknowledged, lastSaved_append] using hwritten⟩

/-- The invariant of a run, by induction on its calls. -/
theorem recorded_run {all : List LocationCall}
    (hsurvives : ∀ location, Written all location → Survives codec location)
    (calls : List (LocationCall × Faults)) (hcalls : ∀ call ∈ calls, call.1 ∈ all)
    {state : LocationState} (h : Recorded codec all state) :
    Recorded codec all (calls.foldl (LocationState.step codec) state) := by
  induction calls generalizing state with
  | nil => exact h
  | cons call calls ih =>
    rw [List.forall_mem_cons] at hcalls
    exact ih hcalls.2 (h.step hcalls.1 hsurvives)

end Invariant

/-! ## Runs of the in-memory repository -/

structure MemoryState where
  repo : InMemoryLocationRepository := {}
  acknowledged : List LocationCall := []

def LocationCall.runMemory (repo : InMemoryLocationRepository) :
    LocationCall → Bool × InMemoryLocationRepository
  | .save partition location =>
    let (reply, repo) := repo.save partition location
    (reply.isOk, repo)
  | .updateSignedUrl partition fileId signedUrl updatedAtEpochSeconds =>
    let (reply, repo) := repo.updateSignedUrl partition fileId signedUrl updatedAtEpochSeconds
    (reply.isOk, repo)
  | .delete partition fileId =>
    let (reply, repo) := repo.delete partition fileId
    (reply.isOk, repo)
  | .find partition fileId => ((repo.find partition fileId).isOk, repo)
  | .findByFileSource partition fileSource => ((repo.findByFileSource partition fileSource).isOk, repo)

def MemoryState.step (state : MemoryState) (call : LocationCall) : MemoryState :=
  let (acknowledged, repo) := call.runMemory state.repo
  { repo
    acknowledged := if acknowledged then state.acknowledged ++ [call] else state.acknowledged }

def runMemory (calls : List LocationCall) : MemoryState := calls.foldl MemoryState.step {}

/-- Lookups return what was saved last. -/
structure MemoryReturns (repo : InMemoryLocationRepository) (c : Contents) : Prop where
  find : ∀ p id location, repo.find p id = .ok location ↔ c p id = some location
  findByFileSource : ∀ p fileSource location, repo.findByFileSource p fileSource = .ok location ↔
    ∃ id, c p id = some location ∧ location.fileSource = fileSource

section Memory
variable {repo : InMemoryLocationRepository} {c : Contents}

theorem memoryReturns_of_byFileId (h : ∀ p id, repo.byFileId p id = c p id) :
    MemoryReturns repo c := by
  constructor
  · intro p id location
    rw [InMemoryLocationRepository.find_eq_ok, h]
  · intro p fileSource location
    rw [InMemoryLocationRepository.findByFileSource_eq_ok,
      InMemoryLocationRepository.byFileSource_eq_some]
    constructor
    · rintro ⟨hfound, hsource⟩
      exact ⟨_, by rw [← h, hfound], hsource⟩
    · rintro ⟨id, hc, hsource⟩
      rw [← h] at hc
      have hid := InMemoryLocationRepository.byFileId_fileId hc
      exact ⟨by rw [hid, hc], hsource⟩

theorem updateSignedUrl_memory_cases (repo : InMemoryLocationRepository)
    (partition fileId signedUrl : String) (updatedAtEpochSeconds : Int) :
    (∃ e, repo.updateSignedUrl partition fileId signedUrl updatedAtEpochSeconds = (.error e, repo)) ∨
      ∃ old, repo.byFileId partition fileId = some old ∧
        (repo.updateSignedUrl partition fileId signedUrl updatedAtEpochSeconds).1 = .ok () ∧
        ∀ p id,
          (repo.updateSignedUrl partition fileId signedUrl updatedAtEpochSeconds).2.byFileId p id =
            if partition = p ∧ fileId = id then
              some { old with signedUrl, updatedAtEpochSeconds }
            else repo.byFileId p id := by
  unfold InMemoryLocationRepository.updateSignedUrl
  split
  · exact .inl ⟨_, rfl⟩
  · rename_i old hold
    refine .inr ⟨old, hold, rfl, ?_⟩
    intro p id
    rw [InMemoryLocationRepository.byFileId_put, InMemoryLocationRepository.byFileId_fileId hold]

/-- An acknowledged call does to the repository what it does to the records. -/
theorem byFileId_runMemory (call : LocationCall) (h : ∀ p id, repo.byFileId p id = c p id)
    (p id : String) :
    (call.runMemory repo).2.byFileId p id =
      (if (call.runMemory repo).1 then call.after c else c) p id := by
  cases call with
  | save partition location =>
    rcases InMemoryLocationRepository.save_cases repo partition location with
      ⟨e, hsave⟩ | ⟨hfs, hfree, hsave⟩
    · simpa [LocationCall.runMemory, hsave, Except.isOk, Except.toBool] using h p id
    · simp [LocationCall.runMemory, hsave, LocationCall.after,
        InMemoryLocationRepository.byFileId_put, h]
  | updateSignedUrl partition fileId signedUrl updatedAtEpochSeconds =>
    rcases updateSignedUrl_memory_cases repo partition fileId signedUrl updatedAtEpochSeconds with
      ⟨e, hupdate⟩ | ⟨old, hold, hok, hfound⟩
    · simpa [LocationCall.runMemory, hupdate, Except.isOk, Except.toBool] using h p id
    · have hc : c partition fileId = some old := by rw [← h, hold]
      have hrun : LocationCall.runMemory repo
          (.updateSignedUrl partition fileId signedUrl updatedAtEpochSeconds) =
          (true, (repo.updateSignedUrl partition fileId signedUrl updatedAtEpochSeconds).2) :=
        Prod.ext (by simp only [LocationCall.runMemory, hok, Result.isOk]) rfl
      rw [hrun]
      simp only [if_true, hfound, LocationCall.after]
      by_cases hkey : partition = p ∧ fileId = id
      · obtain ⟨rfl, rfl⟩ := hkey
        simp [hc]
      · simp [hkey, h]
  | delete partition fileId =>
    rcases InMemoryLocationRepository.delete_cases repo partition fileId with
      ⟨-, e, hdelete⟩ | ⟨old, -, hok, hfound, -⟩
    · simpa [LocationCall.runMemory, hdelete, Except.isOk, Except.toBool] using h p id
    · simp [LocationCall.runMemory, hok, hfound, LocationCall.after, h]
  | find partition fileId =>
    cases (LocationCall.runMemory repo (.find partition fileId)).1 <;> exact h p id
  | findByFileSource partition fileSource =>
    cases (LocationCall.runMemory repo (.findByFileSource partition fileSource)).1 <;> exact h p id

theorem byFileId_run (calls : List LocationCall) {state : MemoryState}
    (h : ∀ p id, state.repo.byFileId p id = lastSaved state.acknowledged p id) (p id : String) :
    (calls.foldl MemoryState.step state).repo.byFileId p id =
      lastSaved (calls.foldl MemoryState.step state).acknowledged p id := by
  induction calls generalizing state with
  | nil => exact h p id
  | cons call calls ih =>
    apply ih
    intro q k
    have hstep := byFileId_runMemory call h q k
    cases hacknowledged : (call.runMemory state.repo).1 with
    | false => simpa [MemoryState.step, hacknowledged] using hstep
    | true => simpa [MemoryState.step, hacknowledged, lastSaved_append] using hstep

end Memory

/-! ## Both repositories -/

section Both
variable {codec : TextCodec}

/-- The open part of the location that a call saves is separate. -/
def LocationCall.Separate : LocationCall → Prop
  | .save _ location => LocationRepository.Separate location
  | _ => True

theorem separate_of_written {calls : List LocationCall} (h : ∀ call ∈ calls, call.Separate)
    {location : FileLocation} (hwritten : Written calls location) :
    LocationRepository.Separate location := by
  induction hwritten with
  | saved hcall => exact h _ hcall
  | updated _ _ ih => exact ⟨ih.extra, ih.finite⟩

theorem byFileId_empty (p id : String) :
    ({} : InMemoryLocationRepository).byFileId p id = none :=
  Buckets.get?_empty p id

/-- A location is read as it was written exactly if its open part is separate, and in a run where
all are, the lookups return what was saved last. The in-memory repository needs no such
condition. -/
theorem locations_restored (calls : List (LocationCall × Faults))
    (hcodable : ∀ location, Written (calls.map Prod.fst) location → Codable codec location) :
    (∀ location, Written (calls.map Prod.fst) location →
      (parseLocation codec (dumpLocation codec location) = some (.ok location) ↔
        LocationRepository.Separate location)) ∧
    ((∀ call ∈ calls, call.1.Separate) →
      Returns codec (runLocations codec calls).table
        (lastSaved (runLocations codec calls).acknowledged)) ∧
    MemoryReturns (runMemory (calls.map Prod.fst)).repo
      (lastSaved (runMemory (calls.map Prod.fst)).acknowledged) := by
  refine ⟨fun location h => roundTrip_iff (hcodable location h), ?_, ?_⟩
  · intro hseparate
    have hsurvives : ∀ location, Written (calls.map Prod.fst) location → Survives codec location := by
      intro location hwritten
      have hall : ∀ call ∈ calls.map Prod.fst, call.Separate := by
        simpa using fun call faults hcall => hseparate (call, faults) hcall
      exact (roundTrip_iff (hcodable location hwritten)).mpr (separate_of_written hall hwritten)
    have hrun := recorded_run hsurvives calls (fun call hcall => List.mem_map_of_mem hcall)
      (recorded_empty _)
    exact hrun.holds.returns fun p id location hl => hsurvives location (hrun.written p id location hl)
  · exact memoryReturns_of_byFileId (byFileId_run _ byFileId_empty)

end Both

/-! ## Sample runs -/

section Sample

/-- The location of one file, with an open part to choose. -/
def sampleFile (extra : Json.Value) : FileLocation where
  fileId := "f"
  fileSource := "/s"
  extra

/-- The location of the file after it was given an address. -/
def addressedFile (extra : Json.Value) : FileLocation :=
  { sampleFile extra with signedUrl := "http://u", updatedAtEpochSeconds := 5 }

def sampleCalls (extra : Json.Value) : List (LocationCall × Faults) :=
  [(.save "p" (sampleFile extra), {}), (.updateSignedUrl "p" "f" "http://u" 5, {})]

/-- The text of one of the two locations; `first` is the text of the open part. -/
def sampleText (first signedUrl updatedAt : String) : String :=
  "\x7b" ++ first ++ "\"created_at_epoch_seconds\":0,\"driver\":\"POSIX\",\"file_id\":\"f\"," ++
    "\"file_source\":\"/s\",\"signed_url\":\"" ++ signedUrl ++
    "\",\"updated_at_epoch_seconds\":" ++ updatedAt ++ ",\"user_id\":\"\",\"zone\":\"STAGING\"\x7d"

/-- The codec on the texts of the two locations. -/
def sampleCodec (first : String) (extra : Json.Value) : TextCodec where
  dump v :=
    match v.find? "signed_url" with
    | some (.string "http://u") => sampleText first "http://u" "5"
    | _ => sampleText first "" "0"
  parseObject text :=
    if text = sampleText first "http://u" "5" then .ok (locationToJson (addressedFile extra))
    else if text = sampleText first "" "0" then .ok (locationToJson (sampleFile extra))
    else .error (err .invalidArgument "JSON 解析失败")

def objectKeys : Json.Value := (Json.Value.object []).set "container" (.string "c")

def driverMember : Json.Value := (Json.Value.object []).set "driver" (.string "DISK")

theorem reads_sampleFile {first : String} {extra : Json.Value}
    (htexts : sampleText first "" "0" ≠ sampleText first "http://u" "5")
    (hfinite : (locationToJson (sampleFile extra)).isFinite = true) :
    (sampleCodec first extra).Reads (locationToJson (sampleFile extra)) := by
  have hdump : (sampleCodec first extra).dump (locationToJson (sampleFile extra)) =
      sampleText first "" "0" := by
    simp [sampleCodec, locationToJson, sampleFile]
  unfold TextCodec.Reads
  rw [hdump, (nullified_eq_iff _).mpr hfinite]
  simp only [sampleCodec, if_neg htexts, if_true]

theorem reads_addressedFile {first : String} {extra : Json.Value}
    (hfinite : (locationToJson (addressedFile extra)).isFinite = true) :
    (sampleCodec first extra).Reads (locationToJson (addressedFile extra)) := by
  have hdump : (sampleCodec first extra).dump (locationToJson (addressedFile extra)) =
      sampleText first "http://u" "5" := by
    simp [sampleCodec, locationToJson, addressedFile]
  unfold TextCodec.Reads
  rw [hdump, (nullified_eq_iff _).mpr hfinite]
  simp only [sampleCodec, if_true]

theorem written_sampleCalls {extra : Json.Value} {location : FileLocation}
    (h : Written ((sampleCalls extra).map Prod.fst) location) :
    location = sampleFile extra ∨ location = addressedFile extra := by
  induction h with
  | saved hcall =>
    simp only [sampleCalls, List.map_cons, List.map_nil, List.mem_cons, LocationCall.save.injEq,
      List.not_mem_nil, or_false, reduceCtorEq] at hcall
    exact .inl hcall.2
  | updated hwritten hcall ih =>
    simp only [sampleCalls, List.map_cons, List.map_nil, List.mem_cons, List.not_mem_nil, or_false,
      LocationCall.updateSignedUrl.injEq, reduceCtorEq, false_or] at hcall
    obtain ⟨-, -, rfl, rfl⟩ := hcall
    rcases ih with rfl | rfl <;> exact .inr rfl

/-- Object keys in the open part, which the service itself puts there. -/
theorem sampleCalls_restored :
    let codec := sampleCodec "\"container\":\"c\"," objectKeys
    let calls := sampleCalls objectKeys
    (∀ location, Written (calls.map Prod.fst) location →
      (parseLocation codec (dumpLocation codec location) = some (.ok location) ↔
        LocationRepository.Separate location)) ∧
    ((∀ call ∈ calls, call.1.Separate) →
      Returns codec (runLocations codec calls).table
        (lastSaved (runLocations codec calls).acknowledged)) ∧
    MemoryReturns (runMemory (calls.map Prod.fst)).repo
      (lastSaved (runMemory (calls.map Prod.fst)).acknowledged) := by
  apply locations_restored
  intro location hwritten
  rcases written_sampleCalls hwritten with rfl | rfl
  · exact ⟨by decide, by decide, reads_sampleFile (by decide +kernel) (by decide +kernel)⟩
  · exact ⟨by decide, by decide, reads_addressedFile (by decide +kernel)⟩

/-- A member of the open part that is named as the driver is not found again. -/
theorem driverMember_lost :
    let codec := sampleCodec "" driverMember
    let state := runLocations codec [(.save "p" (sampleFile driverMember), {})]
    lastSaved state.acknowledged "p" "f" = some (sampleFile driverMember) ∧
      findInternal codec state.table none "p" "f" ≠ some (.ok (sampleFile driverMember)) := by
  refine ⟨rfl, ?_⟩
  intro hfound
  have hlost : (findInternal (sampleCodec "" driverMember)
      (runLocations (sampleCodec "" driverMember)
        [(.save "p" (sampleFile driverMember), {})]).table none "p" "f").all (fun found =>
      found.toOption.all fun location => (location.extra.find? "driver").isNone) = true := by
    decide +kernel
  rw [hfound] at hlost
  cases hlost

end Sample

end FileService.Repositories
