import FileService.Domain.RecordJson
import FileService.Infra.MetadataMemory
import FileService.Interaction.Component

/-!
# The metadata table of the database

The rows of `file_metadata_records` with the primary key and the two partial
unique indexes, and the statements of the repository. A statement outside a
transaction takes effect at once. What a transaction has changed is seen by
nobody else until it is committed; others wait for its end before they change
the row it has cleared, so it is committed only if that row is still there.
-/
namespace FileService.Postgres.Metadata
open FileService.Common FileService.Domain FileService.Infra FileService.Interaction

structure Row where
  partitionId : String
  id : String
  version : Int
  kind : String
  state : MetadataState
  isLatest : Bool
  createdAt : Int
  aclViewers : List String
  aclOwners : List String
  legalTags : List String
  fileSource : String
  data : Json.Value

namespace Row

/-- The predicate of `ux_mr_source`. -/
def isActive (row : Row) : Bool := row.isLatest && row.state != .deleted

/-- Two rows that the primary key, `ux_mr_latest` and `ux_mr_source` allow. -/
def Compatible (a b : Row) : Prop :=
  (a.partitionId, a.id, a.version) ≠ (b.partitionId, b.id, b.version) ∧
    (a.isLatest = true → b.isLatest = true → (a.partitionId, a.id) ≠ (b.partitionId, b.id)) ∧
      (a.isActive = true → b.isActive = true →
        (a.partitionId, a.fileSource) ≠ (b.partitionId, b.fileSource))

instance (a b : Row) : Decidable (a.Compatible b) := by
  unfold Compatible
  infer_instance

/-- The row is one of the record. -/
def isOf (partition id : String) (row : Row) : Bool := row.partitionId == partition && row.id == id

def isVersionOf (partition id : String) (version : Int) (row : Row) : Bool :=
  row.isOf partition id && row.version == version

def isLatestReadyOf (partition id : String) (row : Row) : Bool :=
  row.isOf partition id && row.isLatest && row.state == .ready

def isSourceOf (partition fileSource : String) (row : Row) : Bool :=
  row.partitionId == partition && row.fileSource == fileSource && row.isActive

def isClaimingVersionOf (partition id : String) (version : Int) (row : Row) : Bool :=
  row.isVersionOf partition id version && row.state == .claiming

def isStaleClaim (partition : String) (olderThanEpochSeconds : Int) (sources : List String)
    (row : Row) : Bool :=
  row.partitionId == partition && row.state == .claiming &&
    decide (row.createdAt ≤ olderThanEpochSeconds) && sources.contains row.fileSource

end Row

/-- The rows, each of them allowed beside all others. -/
structure Table where
  rows : List Row := []
  unique : rows.Pairwise Row.Compatible := by simp

/-- A change of rows that takes none into an index that it was not in. -/
structure KeepsIndexes (f : Row → Row) : Prop where
  partitionId : ∀ row, (f row).partitionId = row.partitionId
  id : ∀ row, (f row).id = row.id
  version : ∀ row, (f row).version = row.version
  fileSource : ∀ row, (f row).fileSource = row.fileSource
  isLatest : ∀ row, (f row).isLatest = true → row.isLatest = true
  isActive : ∀ row, (f row).isActive = true → row.isActive = true

theorem KeepsIndexes.compatible {f : Row → Row} (hf : KeepsIndexes f) {a b : Row}
    (h : a.Compatible b) : (f a).Compatible (f b) := by
  unfold Row.Compatible
  rw [hf.partitionId, hf.partitionId, hf.id, hf.id, hf.version, hf.version, hf.fileSource,
    hf.fileSource]
  exact ⟨h.1, fun ha hb => h.2.1 (hf.isLatest a ha) (hf.isLatest b hb),
    fun ha hb => h.2.2 (hf.isActive a ha) (hf.isActive b hb)⟩

namespace Table

def insert? (table : Table) (row : Row) : Option Table :=
  if h : ∀ old ∈ table.rows, old.Compatible row then
    some { rows := table.rows ++ [row]
           unique := by
             simp only [List.pairwise_append, List.pairwise_singleton, List.mem_singleton,
               forall_eq, true_and]
             exact ⟨table.unique, h⟩ }
  else none

def delete (table : Table) (accepts : Row → Bool) : Table where
  rows := table.rows.filter fun row => !accepts row
  unique := table.unique.filter _

def update (table : Table) (f : Row → Row) (hf : KeepsIndexes f) : Table where
  rows := table.rows.map f
  unique := List.pairwise_map.mpr (table.unique.imp fun h => hf.compatible h)

end Table

/-- What marks a claim as ready. -/
structure Marking where
  partition : String
  id : String
  version : Int
  fileSource : String
  data : Json.Value
  kind : String
  aclViewers : List String
  aclOwners : List String
  legalTags : List String

namespace Marking

def applies (marking : Marking) (row : Row) : Bool :=
  row.isClaimingVersionOf marking.partition marking.id marking.version &&
    row.fileSource == marking.fileSource

def marked (marking : Marking) (row : Row) : Row :=
  { row with
    state := .ready, data := marking.data, kind := marking.kind, aclViewers := marking.aclViewers
    aclOwners := marking.aclOwners, legalTags := marking.legalTags }

def apply (marking : Marking) (row : Row) : Row :=
  if marking.applies row then marking.marked row else row

theorem keepsIndexes_apply (marking : Marking) : KeepsIndexes marking.apply := by
  have hstate : ∀ row, marking.applies row = true → row.state = .claiming := by
    intro row h
    simp only [applies, Row.isClaimingVersionOf, Bool.and_eq_true, beq_iff_eq] at h
    exact h.1.2
  constructor
  case isActive =>
    intro row
    unfold apply
    split_ifs with h
    · simp [Row.isActive, marked, hstate row h]
    · exact fun h => h
  all_goals
    intro row
    unfold apply
    split_ifs <;> first | rfl | exact fun h => h

end Marking

/-- The row is not the latest any more. -/
def clear (cleared : Row) (row : Row) : Row :=
  if row.isVersionOf cleared.partitionId cleared.id cleared.version then
    { row with isLatest := false }
  else row

theorem keepsIndexes_clear (cleared : Row) : KeepsIndexes (clear cleared) := by
  constructor <;> intro row <;> unfold clear <;> split_ifs <;> simp [Row.isActive]

/-! ## Statements -/

/-- The statements, by the names of their texts in the source. -/
inductive Statement where
  | borrow
  | selectLatestById (partition id : String)
  | selectLatestBySource (partition fileSource : String)
  | selectClaimBySource (partition fileSource : String)
  | selectVersionState (partition id : String) (version : Int)
  | claimInsert (row : Row)
  | markReady (marking : Marking)
  | releaseClaim (partition id : String) (version : Int)
  | reclaimStaleClaiming (partition : String) (olderThanEpochSeconds : Int)
      (sources : List String) (limit : Int)
  | begin
  | clearLatest (partition id : String)
  | insertVersion (row : Row)
  | commit
  | rollback
  | deleteAllVersions (partition id : String)
  | countVersions (partition id : String)

/-- The first row of a query, or the number of rows. -/
abbrev Statement.Answer : Statement → Type
  | .borrow => Unit
  | .selectLatestById .. => Option Row
  | .selectLatestBySource .. => Option Row
  | .selectClaimBySource .. => Option Row
  | .selectVersionState .. => Option Row
  | .claimInsert _ => Nat
  | .markReady _ => Option Row
  | .releaseClaim .. => Nat
  | .reclaimStaleClaiming .. => Nat
  | .begin => Unit
  | .clearLatest .. => Nat
  | .insertVersion _ => Unit
  | .commit => Unit
  | .rollback => Unit
  | .deleteAllVersions .. => Nat
  | .countVersions .. => Nat

/-- What a caller asks for: the clock of its own host, or a statement on its connection. -/
inductive Call where
  | now
  | statement (q : Statement)

abbrev Call.Reply : Call → Type
  | .now => Int
  | .statement q => Result q.Answer

abbrev sql : Interface where
  Op := Call
  Reply := Call.Reply

abbrev query (q : Statement) : Program sql (Result q.Answer) :=
  Program.perform (I := sql) (.statement q)

abbrev now : Program sql Int := Program.perform (I := sql) .now

/-! ## The database and its transactions -/

/-- What an open transaction has changed. -/
structure Transaction where
  cleared : Option Row := none
  inserted : Option Row := none

namespace Transaction

def clearedTable (transaction : Transaction) (table : Table) : Table :=
  match transaction.cleared with
  | some row => table.update (clear row) (keepsIndexes_clear row)
  | none => table

/-- The rows as the transaction has left them. -/
def next? (transaction : Transaction) (table : Table) : Option Table :=
  match transaction.inserted with
  | some row => (transaction.clearedTable table).insert? row
  | none => some (transaction.clearedTable table)

end Transaction

/-- A version that an update has committed, and the caller who did. -/
structure Installed (ι : Type) where
  caller : ι
  partition : String
  id : String
  version : Int

/-- The committed rows and the open transactions of the callers. `removed` and `installed` are a
record of which versions were deleted and committed. -/
structure Database (ι : Type) where
  table : Table := {}
  transactions : ι → Option Transaction := fun _ => none
  removed : List (String × String) := []
  installed : List (Installed ι) := []

namespace Database
variable {ι : Type} [DecidableEq ι] (i : ι) (s : Database ι)

def withTable (table : Table) : Database ι := { s with table }

def withTransaction (transaction : Option Transaction) : Database ι :=
  { s with transactions := Function.update s.transactions i transaction }

/-- The transaction is over, and what it has done is there. -/
def committed (transaction : Transaction) (table : Table) : Database ι where
  table
  transactions := Function.update s.transactions i none
  removed := s.removed
  installed := s.installed ++ (transaction.inserted.toList.map fun row =>
    { caller := i, partition := row.partitionId, id := row.id, version := row.version })

/-- The record of a deletion that has removed rows. -/
def noteRemoval (partition id : String) (n : Nat) : Database ι :=
  if n = 0 then s else { s with removed := (partition, id) :: s.removed }

/-- A statement that is carried out. -/
def run : (q : Statement) → q.Answer → Database ι → Prop
  | .borrow, (), s' => s' = s
  | .selectLatestById partition id, found, s' =>
    found = s.table.rows.find? (Row.isLatestReadyOf partition id) ∧ s' = s
  | .selectLatestBySource partition fileSource, found, s' =>
    found = s.table.rows.find? (fun row =>
      row.isSourceOf partition fileSource && row.state == .ready) ∧ s' = s
  | .selectClaimBySource partition fileSource, found, s' =>
    found = s.table.rows.find? (Row.isSourceOf partition fileSource) ∧ s' = s
  | .selectVersionState partition id version, found, s' =>
    found = s.table.rows.find? (Row.isVersionOf partition id version) ∧ s' = s
  | .claimInsert row, n, s' =>
    (n = 1 ∧ ∃ table, s.table.insert? row = some table ∧ s' = s.withTable table) ∨
      (n = 0 ∧ s' = s ∧ ∃ old ∈ s.table.rows,
        old.isSourceOf row.partitionId row.fileSource = true)
  | .markReady marking, found, s' =>
    found = (s.table.rows.find? marking.applies).map marking.marked ∧
      s' = s.withTable (s.table.update marking.apply marking.keepsIndexes_apply)
  | .releaseClaim partition id version, n, s' =>
    n = s.table.rows.countP (Row.isClaimingVersionOf partition id version) ∧
      s' = s.withTable (s.table.delete (Row.isClaimingVersionOf partition id version))
  | .reclaimStaleClaiming partition olderThan sources limit, n, s' =>
    -- rows that are locked are skipped
    ∃ victims : Row → Bool,
      (∀ row, victims row = true → row.isStaleClaim partition olderThan sources = true) ∧
        n = s.table.rows.countP victims ∧ (n : Int) ≤ limit ∧
          s' = s.withTable (s.table.delete victims)
  | .begin, (), s' => s' = s.withTransaction i (some {})
  | .clearLatest partition id, n, s' =>
    -- a row that it had to wait for need not be the latest any more
    ∃ transaction, s.transactions i = some transaction ∧
      ((n = 0 ∧ s' = s) ∨ ∃ row ∈ s.table.rows, row.isLatestReadyOf partition id = true ∧ n = 1 ∧
        s' = s.withTransaction i (some { transaction with cleared := some row }))
  | .insertVersion row, (), s' =>
    ∃ transaction table, s.transactions i = some transaction ∧
      { transaction with inserted := some row }.next? s.table = some table ∧
        s' = s.withTransaction i (some { transaction with inserted := some row })
  | .commit, (), s' =>
    ∃ transaction table, s.transactions i = some transaction ∧
      (∀ row, transaction.cleared = some row → row ∈ s.table.rows) ∧
        transaction.next? s.table = some table ∧
          s' = s.committed i transaction table
  | .rollback, (), s' => s' = s.withTransaction i none
  | .deleteAllVersions partition id, n, s' =>
    -- a version that comes in while it waits for an update is not removed
    ∃ victims : Row → Bool, (∀ row, victims row = true → row.isOf partition id = true) ∧
      n = s.table.rows.countP victims ∧
        s' = (s.withTable (s.table.delete victims)).noteRemoval partition id n
  | .countVersions partition id, n, s' =>
    n = s.table.rows.countP (Row.isOf partition id) ∧ s' = s

/-- A failing statement has no effect, or the whole of it; a failing rollback ends the
transaction with its connection. -/
inductive Exec : (call : Call) → call.Reply → Database ι → Prop
  | now (t : Int) : Exec .now t s
  | done {q : Statement} {a : q.Answer} {s' : Database ι} :
      run i s q a s' → Exec (.statement q) (.ok a) s'
  | failed {q : Statement} (e : Error) : q ≠ .rollback → Exec (.statement q) (.error e) s
  | lost {q : Statement} {a : q.Answer} {s' : Database ι} (e : Error) :
      run i s q a s' → Exec (.statement q) (.error e) s'

/-- A connection is lost, and with it the transaction. -/
inductive Loses : Database ι → Prop
  | loses (i : ι) : Loses (s.withTransaction i none)

end Database

end FileService.Postgres.Metadata
