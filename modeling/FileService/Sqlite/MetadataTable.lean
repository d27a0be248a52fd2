import FileService.Infra.MetadataMemory
import FileService.Sqlite.Connection

/-!
# The metadata table

The rows of the table with its primary key and its two partial unique indexes,
and the statements of the repository on it.
-/
namespace FileService.Sqlite
open FileService.Common FileService.Domain FileService.Infra

structure MetadataRow where
  partitionId : String
  id : String
  version : Int
  isLatest : Bool
  previousVersion : Option Int
  fileSource : String
  kind : String
  name : String
  createdAt : Int
  createdBy : String
  data : String
  state : MetadataState
deriving DecidableEq

/-- Two rows that the primary key, `ux_metadata_source` and `ux_metadata_latest` allow. -/
def MetadataRow.Compatible (a b : MetadataRow) : Prop :=
  (a.partitionId, a.id, a.version) ≠ (b.partitionId, b.id, b.version) ∧
    (a.isLatest = true → b.isLatest = true →
      (a.partitionId, a.fileSource) ≠ (b.partitionId, b.fileSource) ∧
        (a.partitionId, a.id) ≠ (b.partitionId, b.id))

instance (a b : MetadataRow) : Decidable (a.Compatible b) := by
  unfold MetadataRow.Compatible
  infer_instance

/-- The rows in the order they were inserted in. -/
@[ext] structure MetadataTable where
  rows : List MetadataRow := []
  unique : rows.Pairwise MetadataRow.Compatible := by simp

namespace MetadataTable

def insert (table : MetadataTable) (row : MetadataRow) : Except Code MetadataTable :=
  if h : ∀ old ∈ table.rows, old.Compatible row then
    .ok { rows := table.rows ++ [row]
          unique := by
            simp only [List.pairwise_append, List.pairwise_singleton, List.mem_singleton,
              forall_eq, true_and]
            exact ⟨table.unique, h⟩ }
  else .error .constraint

def delete (table : MetadataTable) (accepts : MetadataRow → Bool) : MetadataTable where
  rows := table.rows.filter fun row => !accepts row
  unique := table.unique.filter _

/-- An update that keeps the columns of the indexes, or takes rows out of the partial ones. -/
structure KeepsIndexes (f : MetadataRow → MetadataRow) : Prop where
  partitionId : ∀ row, (f row).partitionId = row.partitionId
  id : ∀ row, (f row).id = row.id
  version : ∀ row, (f row).version = row.version
  fileSource : ∀ row, (f row).fileSource = row.fileSource
  isLatest : ∀ row, (f row).isLatest = true → row.isLatest = true

theorem KeepsIndexes.compatible {f : MetadataRow → MetadataRow} (hf : KeepsIndexes f)
    {a b : MetadataRow} (h : a.Compatible b) : (f a).Compatible (f b) := by
  unfold MetadataRow.Compatible
  rw [hf.partitionId, hf.partitionId, hf.id, hf.id, hf.version, hf.version, hf.fileSource,
    hf.fileSource]
  exact ⟨h.1, fun ha hb => h.2 (hf.isLatest a ha) (hf.isLatest b hb)⟩

def update (table : MetadataTable) (f : MetadataRow → MetadataRow) (hf : KeepsIndexes f) :
    MetadataTable where
  rows := table.rows.map f
  unique := List.pairwise_map.mpr (table.unique.imp fun h => hf.compatible h)

theorem update_ne {table : MetadataTable} {f : MetadataRow → MetadataRow} {hf : KeepsIndexes f}
    {row : MetadataRow} (hrow : row ∈ table.rows) (hchanged : f row ≠ row) :
    table.update f hf ≠ table := by
  intro hsame
  have hrows : table.rows.map f = table.rows.map id := by
    rw [List.map_id]
    exact congrArg MetadataTable.rows hsame
  exact hchanged (List.map_inj_left.mp hrows row hrow)

theorem length_delete (table : MetadataTable) (accepts : MetadataRow → Bool) :
    (table.delete accepts).rows.length + table.rows.countP accepts = table.rows.length := by
  rw [List.countP_eq_length_filter, Nat.add_comm]
  exact (List.length_eq_length_filter_add accepts).symm

end MetadataTable

/-- The statements, by the names of their texts in the source. -/
inductive MetadataStatement where
  | selectLatestById (partition id : String)
  | selectLatestBySource (partition fileSource : String)
  | selectClaimBySource (partition fileSource : String)
  | selectVersionState (partition id : String) (version : Int)
  | selectListLatest (partition : String)
  | clearLatest (partition id : String)
  | insertVersion (row : MetadataRow)
  | markReady (data kind name partition id : String) (version : Int) (fileSource : String)
  | releaseClaim (partition id : String) (version : Int)
  | selectStaleClaiming (partition : String) (olderThanEpochSeconds : Int)
      (sources : List String) (limit : Int)
  | reclaimClaimingRow (partition id : String) (version : Int)
  | deleteAllVersions (partition id : String)
  | countVersions (partition id : String)

/-- A row for the first step of a query that expects one, the rows of a listing, the number
of changed rows. -/
abbrev MetadataStatement.Answer : MetadataStatement → Type
  | .selectLatestById .. => Option MetadataRow
  | .selectLatestBySource .. => Option MetadataRow
  | .selectClaimBySource .. => Option MetadataRow
  | .selectVersionState .. => Option MetadataRow
  | .selectListLatest .. => List MetadataRow
  | .clearLatest .. => Nat
  | .insertVersion .. => Unit
  | .markReady .. => Nat
  | .releaseClaim .. => Nat
  | .selectStaleClaiming .. => List (String × Int)
  | .reclaimClaimingRow .. => Nat
  | .deleteAllVersions .. => Nat
  | .countVersions .. => Nat

namespace MetadataTable

def isLatestReadyOf (partition id : String) (row : MetadataRow) : Bool :=
  row.partitionId == partition && row.id == id && row.isLatest && row.state == .ready

def isVersionOf (partition id : String) (version : Int) (row : MetadataRow) : Bool :=
  row.partitionId == partition && row.id == id && row.version == version

def isClaimingVersionOf (partition id : String) (version : Int) (row : MetadataRow) : Bool :=
  isVersionOf partition id version row && row.state == .claiming

def isActiveOf (partition fileSource : String) (row : MetadataRow) : Bool :=
  row.partitionId == partition && row.fileSource == fileSource && row.isLatest &&
    row.state != .deleted

def isStaleClaim (partition : String) (olderThan : Int) (sources : List String)
    (row : MetadataRow) : Bool :=
  row.partitionId == partition && row.state == .claiming && decide (row.createdAt ≤ olderThan) &&
    sources.contains row.fileSource

/-- `ORDER BY created_at ASC, id ASC` -/
def createdBefore (a b : MetadataRow) : Prop :=
  a.createdAt < b.createdAt ∨ a.createdAt = b.createdAt ∧ a.id ≤ b.id

instance : DecidableRel createdBefore := fun a b => by unfold createdBefore; infer_instance

/-- `SQLITE_MAX_VARIABLE_NUMBER` -/
def maxVariables : Nat := 32766

def clearRow (partition id : String) (row : MetadataRow) : MetadataRow :=
  if isLatestReadyOf partition id row then { row with isLatest := false } else row

def markRow (data kind name partition id : String) (version : Int) (fileSource : String)
    (row : MetadataRow) : MetadataRow :=
  if isClaimingVersionOf partition id version row && row.fileSource == fileSource then
    { row with state := .ready, data, kind, name }
  else row

theorem keepsIndexes_clearRow (partition id : String) : KeepsIndexes (clearRow partition id) := by
  constructor <;> intro row <;> unfold clearRow <;> split <;> simp

theorem keepsIndexes_markRow (data kind name partition id : String) (version : Int)
    (fileSource : String) : KeepsIndexes (markRow data kind name partition id version fileSource) := by
  constructor <;> intro row <;> unfold markRow <;> split <;> simp

/-- Delete the rows and count them. -/
def deleteCounting (table : MetadataTable) (accepts : MetadataRow → Bool) :
    Except Code (Nat × MetadataTable) :=
  .ok (table.rows.countP accepts, table.delete accepts)

def run : (s : MetadataStatement) → MetadataTable → Except Code (s.Answer × MetadataTable)
  | .selectLatestById partition id, table =>
    .ok (table.rows.find? (isLatestReadyOf partition id), table)
  | .selectLatestBySource partition fileSource, table =>
    .ok (table.rows.find? fun row =>
      isActiveOf partition fileSource row && row.state == .ready, table)
  | .selectClaimBySource partition fileSource, table =>
    .ok (table.rows.find? (isActiveOf partition fileSource), table)
  | .selectVersionState partition id version, table =>
    .ok (table.rows.find? (isVersionOf partition id version), table)
  | .selectListLatest partition, table =>
    .ok (table.rows.filter fun row =>
      row.partitionId == partition && row.isLatest && row.state == .ready, table)
  | .clearLatest partition id, table =>
    .ok (table.rows.countP (isLatestReadyOf partition id),
      table.update (clearRow partition id) (keepsIndexes_clearRow partition id))
  | .insertVersion row, table => (table.insert row).map fun table' => ((), table')
  | .markReady data kind name partition id version fileSource, table =>
    .ok (table.rows.countP fun row =>
        isClaimingVersionOf partition id version row && row.fileSource == fileSource,
      table.update (markRow data kind name partition id version fileSource)
        (keepsIndexes_markRow data kind name partition id version fileSource))
  | .releaseClaim partition id version, table =>
    table.deleteCounting (isClaimingVersionOf partition id version)
  | .selectStaleClaiming partition olderThan sources limit, table =>
    if maxVariables < sources.length + 3 then .error .unprepared
    else
      let stale := (table.rows.filter (isStaleClaim partition olderThan sources)).insertionSort
        createdBefore
      .ok ((stale.take limit.toNat).map fun row => (row.id, row.version), table)
  | .reclaimClaimingRow partition id version, table =>
    table.deleteCounting (isClaimingVersionOf partition id version)
  | .deleteAllVersions partition id, table =>
    table.deleteCounting fun row => row.partitionId == partition && row.id == id
  | .countVersions partition id, table =>
    .ok (table.rows.countP fun row => row.partitionId == partition && row.id == id, table)

end MetadataTable

abbrev metadataSchema : Schema where
  Data := MetadataTable
  Statement := MetadataStatement
  Answer := MetadataStatement.Answer
  run := MetadataTable.run

end FileService.Sqlite
