import FileService.Common.JsonText
import FileService.Domain.RecordRoundTrip
import FileService.Sqlite.LocationReads

/-!
# The writes of the SQLite location repository

The statements on the table, and the calls that run them. A write that its
statement or its transaction refuses has no effect.
-/

/-!
## The rows of the SQLite location repository

A location is stored as one JSON object in which the members of its open part
stand beside the known ones. Reading takes the known names out again.
-/
namespace FileService.Sqlite
open FileService.Common FileService.Common.Json FileService.Common.Json.Value FileService.Domain

namespace LocationRepository

/-- What a call gives; there is none if an exception leaves it. -/
abbrev Outcome (α : Type) := Option (Result α)

/-! ## Locations as JSON -/

/-- `KnownKeys` -/
def locationKnown : List String :=
  ["file_id", "driver", "zone", "file_source", "user_id", "signed_url",
    "created_at_epoch_seconds", "updated_at_epoch_seconds"]

/-- The value that `DumpLocation` writes. -/
def locationToJson (location : FileLocation) : Value :=
  let value := objectOr location.extra
  let value := value.set "file_id" (.string location.fileId)
  let value := value.set "driver" (.string (storageDriverName location.driver))
  let value := value.set "zone" (.string (storageZoneName location.zone))
  let value := value.set "file_source" (.string location.fileSource)
  let value := value.set "user_id" (.string location.userId)
  let value := value.set "signed_url" (.string location.signedUrl)
  let value := value.set "created_at_epoch_seconds" (.integer location.createdAtEpochSeconds)
  value.set "updated_at_epoch_seconds" (.integer location.updatedAtEpochSeconds)

/-- `value(key, std::string{})`; a member of another type makes the library throw. -/
def textOr (v : Value) (key : String) : Option String :=
  match v.find? key with
  | none => some ""
  | some x => x.asString?

/-- A double without its fraction. -/
def truncated (bits : UInt64) : Int :=
  let exponent := (bits >>> 52 &&& 0x7FF).toNat
  let fraction := (bits &&& 0xFFFFFFFFFFFFF).toNat
  let mantissa := if exponent = 0 then fraction else fraction + 2 ^ 52
  let magnitude : Nat := mantissa * 2 ^ exponent / 2 ^ 1075
  if bits >>> 63 = 0 then magnitude else -magnitude

/-- `value(key, std::int64_t{0})` -/
def int64Or (v : Value) (key : String) : Option Int :=
  match v.find? key with
  | none => some 0
  | some (.integer n) => some (toInt64 n)
  | some (.float bits) => some (toInt64 (truncated bits))
  | some _ => none

/-- `ParseLocation` on the object of a text. -/
def locationFromJson (value : Value) : Option FileLocation := do
  let fileId ← textOr value "file_id"
  let fileSource ← textOr value "file_source"
  let userId ← textOr value "user_id"
  let signedUrl ← textOr value "signed_url"
  let createdAtEpochSeconds ← int64Or value "created_at_epoch_seconds"
  let updatedAtEpochSeconds ← int64Or value "updated_at_epoch_seconds"
  let driver ← textOr value "driver"
  let zone ← textOr value "zone"
  return {
    fileId, fileSource, userId, signedUrl, createdAtEpochSeconds, updatedAtEpochSeconds
    driver := (parseStorageDriver driver).getD .posix
    zone := (parseStorageZone zone).getD .staging
    extra := value.without locationKnown }

section Texts
variable (codec : TextCodec)

def dumpLocation (location : FileLocation) : String := codec.dump (locationToJson location)

def parseLocation (text : String) : Outcome FileLocation :=
  match codec.parseObject text with
  | .error e => some (.error e)
  | .ok value => (locationFromJson value).map .ok

end Texts

/-- The times of a location have 64 bits, and the codec reads its text. -/
structure Codable (codec : TextCodec) (location : FileLocation) : Prop where
  createdAt : -2 ^ 63 ≤ location.createdAtEpochSeconds ∧ location.createdAtEpochSeconds < 2 ^ 63
  updatedAt : -2 ^ 63 ≤ location.updatedAtEpochSeconds ∧ location.updatedAtEpochSeconds < 2 ^ 63
  reads : codec.Reads (locationToJson location)

/-- The open part of a location is an object without a known name, and all its numbers are
finite. -/
structure Separate (location : FileLocation) : Prop where
  extra : Extra locationKnown location.extra
  finite : location.extra.isFinite = true

section RoundTrip
variable {codec : TextCodec} {location : FileLocation}

/-- What is read of a location that was written. -/
theorem parseLocation_dumpLocation (h : Codable codec location) :
    parseLocation codec (dumpLocation codec location) =
      some (.ok { location with extra := ((objectOr location.extra).without locationKnown).nullified }) := by
  have hdriver : (parseStorageDriver (storageDriverName location.driver)).getD .posix =
      location.driver := by
    cases location.driver <;> rfl
  have hzone : (parseStorageZone (storageZoneName location.zone)).getD .staging =
      location.zone := by
    cases location.zone <;> rfl
  have hextra : (locationToJson location).without locationKnown =
      (objectOr location.extra).without locationKnown := by
    simp [locationToJson, locationKnown]
  have hread := h.reads
  unfold TextCodec.Reads at hread
  simp only [parseLocation, dumpLocation, hread, locationFromJson, without_nullified, hextra]
  simp [textOr, int64Or, locationToJson, asString?, nullified, hdriver, hzone,
    toInt64_eq_self h.createdAt, toInt64_eq_self h.updatedAt]

/-- A location is read as it was written exactly if its open part is separate from the rest. -/
theorem roundTrip_iff (h : Codable codec location) :
    parseLocation codec (dumpLocation codec location) = some (.ok location) ↔
      Separate location := by
  rw [parseLocation_dumpLocation h]
  constructor
  · intro hsame
    have hextra : ((objectOr location.extra).without locationKnown).nullified = location.extra :=
      congrArg FileLocation.extra (Except.ok.inj (Option.some.inj hsame))
    constructor
    · unfold Extra
      rw [← hextra, without_nullified, without_without]
    · rw [← hextra]
      exact isFinite_nullified _
  · rintro ⟨hextra, hfinite⟩
    have hrest : ((objectOr location.extra).without locationKnown).nullified = location.extra := by
      rw [hextra.objectOr_eq, show location.extra.without locationKnown = location.extra from hextra]
      exact (nullified_eq_iff _).mpr hfinite
    rw [hrest]

end RoundTrip

end LocationRepository

end FileService.Sqlite

namespace FileService.Sqlite
open FileService.Common FileService.Common.Json FileService.Common.Json.Value FileService.Domain

namespace LocationTable

def isRowOf (partition fileId : String) (row : LocationRow) : Bool :=
  row.partitionId == partition && row.fileId == fileId

theorem isRowOf_iff {partition fileId : String} {row : LocationRow} :
    isRowOf partition fileId row = true ↔ partition = row.partitionId ∧ fileId = row.fileId := by
  simp only [isRowOf, Bool.and_eq_true, beq_iff_eq]
  exact and_congr eq_comm eq_comm

/-- `kUpsert`: a row replaces the one with its key, unless `idx_fl_source` forbids it. -/
def upsert (table : LocationTable) (row : LocationRow) : Option LocationTable :=
  if h : ∀ old ∈ table.rows, isRowOf row.partitionId row.fileId old = false →
      (old.partitionId, old.fileSource) ≠ (row.partitionId, row.fileSource) then
    some {
      rows := table.rows.filter (fun old => !isRowOf row.partitionId row.fileId old) ++ [row]
      unique := by
        simp only [List.pairwise_append, List.pairwise_singleton, List.mem_singleton,
          forall_eq, true_and, List.mem_filter, Bool.not_eq_true', and_imp]
        refine ⟨table.unique.filter _, ?_⟩
        intro old hold hother
        refine ⟨?_, h old hold hother⟩
        simpa [isRowOf] using hother }
  else none

/-- The columns that `kUpdateSignedUrl` sets and that are read again. -/
def setData (partition fileId data : String) (row : LocationRow) : LocationRow :=
  if isRowOf partition fileId row then { row with data } else row

@[simp] theorem partitionId_setData (partition fileId data : String) (row : LocationRow) :
    (setData partition fileId data row).partitionId = row.partitionId := by
  unfold setData
  split_ifs <;> rfl

@[simp] theorem fileId_setData (partition fileId data : String) (row : LocationRow) :
    (setData partition fileId data row).fileId = row.fileId := by
  unfold setData
  split_ifs <;> rfl

@[simp] theorem fileSource_setData (partition fileId data : String) (row : LocationRow) :
    (setData partition fileId data row).fileSource = row.fileSource := by
  unfold setData
  split_ifs <;> rfl

/-- `kUpdateSignedUrl` -/
def update (table : LocationTable) (partition fileId data : String) : LocationTable where
  rows := table.rows.map (setData partition fileId data)
  unique := by simpa [List.pairwise_map] using table.unique

/-- `kDelete` -/
def delete (table : LocationTable) (partition fileId : String) : LocationTable where
  rows := table.rows.filter fun row => !isRowOf partition fileId row
  unique := table.unique.filter _

/-- `sqlite3_changes` after an update or a deletion. -/
def changes (table : LocationTable) (partition fileId : String) : Nat :=
  table.rows.countP (isRowOf partition fileId)

/-- In a list whose items exclude each other, at most one item is selected. -/
theorem filter_eq_singleton {α : Type} {excludes : α → α → Prop} {selected : α → Bool}
    {items : List α} {a : α} (h : items.Pairwise excludes)
    (honce : ∀ b c, excludes b c → selected b = true → selected c = true → False)
    (ha : a ∈ items) (hselected : selected a = true) : items.filter selected = [a] := by
  induction items with
  | nil => cases ha
  | cons b items ih =>
    obtain ⟨hb, hrest⟩ := List.pairwise_cons.mp h
    rcases List.mem_cons.mp ha with rfl | ha
    · have hnone : items.filter selected = [] := by
        rw [List.filter_eq_nil_iff]
        exact fun c hc => honce a c (hb c hc) hselected
      rw [List.filter_cons_of_pos hselected, hnone]
    · have hnot : ¬selected b = true := fun hsel => honce b a (hb a ha) hsel hselected
      rw [List.filter_cons_of_neg hnot, ih hrest ha]

variable {table : LocationTable} {row : LocationRow}

theorem selectByFileId_of_mem (h : row ∈ table.rows) :
    table.selectByFileId row.partitionId row.fileId = [row.data] := by
  unfold selectByFileId
  rw [filter_eq_singleton table.unique ?_ h (by simp)]
  · rfl
  · intro b c hbc hb hc
    simp only [Bool.and_eq_true, beq_iff_eq] at hb hc
    exact hbc.1 (by rw [hb.1, hb.2, hc.1, hc.2])

theorem selectByFileSource_of_mem (h : row ∈ table.rows) :
    table.selectByFileSource row.partitionId row.fileSource = [row.data] := by
  unfold selectByFileSource
  rw [filter_eq_singleton table.unique ?_ h (by simp)]
  · rfl
  · intro b c hbc hb hc
    simp only [Bool.and_eq_true, beq_iff_eq] at hb hc
    exact hbc.2 (by rw [hb.1, hb.2, hc.1, hc.2])

end LocationTable

namespace LocationRepository

section Calls
variable (codec : TextCodec) (table : LocationTable)

/-- `LoadRow` -/
def readRow : List (Step String) → Outcome FileLocation
  | .row text :: _ => parseLocation codec text
  | _ => some (.error (notFound "Record Not Found"))

/-- The two lookups: every error of `LoadRow` becomes absence. -/
def lookup (absent : String) (rows : List String) (fault : Option Fault) : Outcome FileLocation :=
  match query rows fault with
  | .error (code, message) => some (.error (sqliteError "准备查询失败" code message))
  | .ok steps =>
    match readRow codec steps with
    | some (.error _) => some (.error (notFound absent))
    | found => found

/-- The first row that is read is the first row. -/
theorem rows_of_query {rows : List String} {fault : Option Fault} {text : String}
    {rest : List (Step String)} (h : query rows fault = .ok (.row text :: rest)) :
    ∃ tail, rows = text :: tail := by
  have hsteps : steps rows fault = .row text :: rest := by
    unfold query at h
    split at h
    · cases h
    · exact Except.ok.inj h
  have hcompleted : rows.map .row ++ [.done] = Step.row text :: rest → ∃ tail, rows = text :: tail := by
    intro hrows
    cases rows with
    | nil => cases hrows
    | cons first tail =>
      cases hrows
      exact ⟨tail, rfl⟩
  unfold steps at hsteps
  split at hsteps
  · rename_i n code message
    split_ifs at hsteps
    · cases rows with
      | nil =>
        rw [List.take_nil] at hsteps
        cases hsteps
      | cons first tail =>
        cases n with
        | zero => cases hsteps
        | succ n =>
          cases hsteps
          exact ⟨tail, rfl⟩
    · exact hcompleted hsteps
  · exact hcompleted hsteps

theorem parse_of_lookup {location : FileLocation} {absent : String} {rows : List String}
    {fault : Option Fault} (h : lookup codec absent rows fault = some (.ok location)) :
    ∃ text rest, rows = text :: rest ∧ parseLocation codec text = some (.ok location) := by
  have hread : ∃ found, query rows fault = .ok found ∧ readRow codec found = some (.ok location) := by
    unfold lookup at h
    split at h
    · cases h
    · rename_i found hquery
      refine ⟨found, hquery, ?_⟩
      split at h
      · cases h
      · exact h
  obtain ⟨found, hquery, hrow⟩ := hread
  unfold readRow at hrow
  split at hrow
  · obtain ⟨tail, rfl⟩ := rows_of_query hquery
    exact ⟨_, tail, rfl, hrow⟩
  · cases hrow

/-- `FindInternal` -/
def findInternal (fault : Option Fault) (partition fileId : String) : Outcome FileLocation :=
  lookup codec ("Not found location for fileID : " ++ fileId)
    (table.selectByFileId partition fileId) fault

/-- `FindByFileSource` -/
def findBySource (fault : Option Fault) (partition fileSource : String) : Outcome FileLocation :=
  lookup codec ("位置记录不存在（按 file_source）：" ++ fileSource)
    (table.selectByFileSource partition fileSource) fault

def rowOf (partition : String) (location : FileLocation) : LocationRow where
  partitionId := partition
  fileId := location.fileId
  fileSource := location.fileSource
  createdBy := location.userId
  createdAt := location.createdAtEpochSeconds
  data := dumpLocation codec location

/-- `Save` -/
def save (refused : Option Error) (partition : String) (location : FileLocation) :
    Result Unit × LocationTable :=
  if partition = "" then (.error (invalid "partition 不能为空"), table)
  else if location.fileId = "" then (.error (invalid "file_id 不能为空"), table)
  else if location.fileSource = "" then (.error (invalid "file_source 不能为空"), table)
  else
    match refused with
    | some e => (.error e, table)
    | none =>
      match table.upsert (rowOf codec partition location) with
      | some table => (.ok (), table)
      | none =>
        (.error (err .locationAlreadyExists
          ("file_source 已被另一个 file_id 占用：" ++ location.fileSource)), table)

/-- `UpdateSignedUrl` -/
def updateSignedUrl (fault : Option Fault) (refused : Option Error)
    (partition fileId signedUrl : String) (updatedAtEpochSeconds : Int) :
    Outcome Unit × LocationTable :=
  match findInternal codec table fault partition fileId with
  | none => (none, table)
  | some (.error e) => (some (.error e), table)
  | some (.ok location) =>
    match refused with
    | some e => (some (.error e), table)
    | none =>
      if table.changes partition fileId = 0 then
        (some (.error (notFound ("位置记录不存在：" ++ fileId))), table)
      else
        (some (.ok ()), table.update partition fileId
          (dumpLocation codec { location with signedUrl, updatedAtEpochSeconds }))

/-- `Delete` -/
def delete (refused : Option Error) (partition fileId : String) : Result Unit × LocationTable :=
  match refused with
  | some e => (.error e, table)
  | none =>
    if table.changes partition fileId = 0 then
      (.error (notFound ("位置记录不存在：" ++ fileId)), table)
    else (.ok (), table.delete partition fileId)

/-! ### What a write can do -/

section Cases
variable (refused : Option Error) (partition fileId : String)

theorem save_cases (location : FileLocation) :
    (∃ e, save codec table refused partition location = (.error e, table)) ∨
      ∃ table', table.upsert (rowOf codec partition location) = some table' ∧
        save codec table refused partition location = (.ok (), table') := by
  unfold save
  by_cases hpartition : partition = ""
  · exact .inl ⟨_, if_pos hpartition⟩
  by_cases hid : location.fileId = ""
  · exact .inl ⟨_, by rw [if_neg hpartition, if_pos hid]⟩
  by_cases hsource : location.fileSource = ""
  · exact .inl ⟨_, by rw [if_neg hpartition, if_neg hid, if_pos hsource]⟩
  rw [if_neg hpartition, if_neg hid, if_neg hsource]
  cases refused with
  | some e => exact .inl ⟨e, rfl⟩
  | none =>
    cases hupsert : table.upsert (rowOf codec partition location) with
    | none => exact .inl ⟨_, rfl⟩
    | some table' => exact .inr ⟨table', rfl, rfl⟩

theorem updateSignedUrl_cases (fault : Option Fault) (signedUrl : String)
    (updatedAtEpochSeconds : Int) :
    (∃ reply, reply ≠ some (.ok ()) ∧ updateSignedUrl codec table fault refused partition fileId
      signedUrl updatedAtEpochSeconds = (reply, table)) ∨
      ∃ location, findInternal codec table fault partition fileId = some (.ok location) ∧
        updateSignedUrl codec table fault refused partition fileId signedUrl
            updatedAtEpochSeconds =
          (some (.ok ()), table.update partition fileId
            (dumpLocation codec { location with signedUrl, updatedAtEpochSeconds })) := by
  unfold updateSignedUrl
  cases hfound : findInternal codec table fault partition fileId with
  | none => exact .inl ⟨none, nofun, rfl⟩
  | some reply =>
    cases reply with
    | error e => exact .inl ⟨some (.error e), nofun, rfl⟩
    | ok location =>
      cases refused with
      | some e => exact .inl ⟨some (.error e), nofun, rfl⟩
      | none =>
        by_cases hchanges : table.changes partition fileId = 0
        · exact .inl ⟨some (.error _), nofun, if_pos hchanges⟩
        · exact .inr ⟨location, rfl, if_neg hchanges⟩

theorem delete_cases :
    (∃ e, delete table refused partition fileId = (.error e, table)) ∨
      delete table refused partition fileId = (.ok (), table.delete partition fileId) := by
  unfold delete
  cases refused with
  | some e => exact .inl ⟨e, rfl⟩
  | none =>
    by_cases hchanges : table.changes partition fileId = 0
    · exact .inl ⟨_, if_pos hchanges⟩
    · exact .inr (if_neg hchanges)

end Cases

end Calls

end LocationRepository

end FileService.Sqlite
