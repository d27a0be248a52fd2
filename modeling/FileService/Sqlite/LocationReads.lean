import FileService.Common.Result
import FileService.Domain.Types

/-!
# The reads of the SQLite location repository

A statement gives the rows of its query one step at a time; its preparation or
any of its steps may fail. The parser of the stored text is left open.
-/
namespace FileService.Sqlite
open FileService.Common FileService.Domain

/-- What `sqlite3_step` gives: a row, the end of the rows, or an error. -/
inductive Step (α : Type) where
  | row (a : α)
  | done
  | failed (code : Nat) (message : String)

/-- A read error: at the preparation of a statement, or at the step after so many rows. -/
inductive Fault where
  | prepare (code : Nat) (message : String)
  | step (rows code : Nat) (message : String)

section Statements
variable {α : Type}

/-- The steps of a prepared statement. -/
def steps (rows : List α) : Option Fault → List (Step α)
  | some (.step n code message) =>
    if n ≤ rows.length then (rows.take n).map .row ++ [.failed code message]
    else rows.map .row ++ [.done]
  | _ => rows.map .row ++ [.done]

/-- Prepare a statement and step through it. -/
def query (rows : List α) : Option Fault → Except (Nat × String) (List (Step α))
  | some (.prepare code message) => .error (code, message)
  | fault => .ok (steps rows fault)

end Statements

structure LocationRow where
  partitionId : String
  fileId : String
  fileSource : String
  createdBy : String
  createdAt : Int
  data : String
deriving DecidableEq

/-- The rows, with the primary key and `idx_fl_source`. -/
structure LocationTable where
  rows : List LocationRow := []
  unique : rows.Pairwise fun a b => (a.partitionId, a.fileId) ≠ (b.partitionId, b.fileId) ∧
    (a.partitionId, a.fileSource) ≠ (b.partitionId, b.fileSource) := by simp

namespace LocationTable

/-- `kSelectByFileId` -/
def selectByFileId (table : LocationTable) (partition fileId : String) : List String :=
  (table.rows.filter fun row => row.partitionId == partition && row.fileId == fileId).map
    LocationRow.data

/-- `kSelectByFileSource` -/
def selectByFileSource (table : LocationTable) (partition fileSource : String) : List String :=
  (table.rows.filter fun row => row.partitionId == partition && row.fileSource == fileSource).map
    LocationRow.data

theorem selectByFileId_eq_nil {table : LocationTable} {partition fileId : String} :
    table.selectByFileId partition fileId = [] ↔
      ¬∃ row ∈ table.rows, row.partitionId = partition ∧ row.fileId = fileId := by
  simp [selectByFileId]

theorem selectByFileSource_eq_nil {table : LocationTable} {partition fileSource : String} :
    table.selectByFileSource partition fileSource = [] ↔
      ¬∃ row ∈ table.rows, row.partitionId = partition ∧ row.fileSource = fileSource := by
  simp [selectByFileSource]

/-- `ORDER BY created_at ASC, file_id ASC` -/
def listedBefore (a b : LocationRow) : Prop :=
  a.createdAt < b.createdAt ∨ a.createdAt = b.createdAt ∧ a.fileId ≤ b.fileId

instance : DecidableRel listedBefore := fun a b => by unfold listedBefore; infer_instance

def isListed (partition : String) (q : LocationQuery) (row : LocationRow) : Bool :=
  row.partitionId == partition &&
  (q.userId == "" || row.createdBy == q.userId) &&
  (decide (q.createdAfterEpochSeconds < 0) || decide (q.createdAfterEpochSeconds ≤ row.createdAt)) &&
  (decide (q.createdBeforeEpochSeconds < 0) || decide (row.createdAt ≤ q.createdBeforeEpochSeconds))

/-- The rows of a listing before paging. -/
def listed (table : LocationTable) (partition : String) (q : LocationQuery) : List LocationRow :=
  (table.rows.filter (isListed partition q)).insertionSort listedBefore

/-- `LIMIT ? OFFSET ?` -/
def window (table : LocationTable) (partition : String) (q : LocationQuery) : List String :=
  (((table.listed partition q).drop q.offset.toNat).take q.limit.toNat).map LocationRow.data

end LocationTable

namespace LocationRepository

def invalid (message : String) : Error := err .invalidArgument message
def notFound (message : String) : Error := err .notFound message

/-- `SqliteError`; the codes 5 and 6 are `SQLITE_BUSY` and `SQLITE_LOCKED`. -/
def sqliteError (what : String) (code : Nat) (message : String) : Error :=
  (err (if code = 5 ∨ code = 6 then .unavailable else .internal)
    (what ++ "：" ++ message)).withDetail "sqlite_code" (toString code)

section Reads
variable (parse : String → Result FileLocation)

/-- Any step that gives no row counts as absence. -/
def loadRow : List (Step String) → Result FileLocation
  | .row text :: _ => parse text
  | _ => .error (notFound "Record Not Found")

/-- The body of the two lookups: every error of `loadRow` becomes absence. -/
def findRow (absent : String) (rows : List String) (fault : Option Fault) : Result FileLocation :=
  match query rows fault with
  | .error (code, message) => .error (sqliteError "准备查询失败" code message)
  | .ok steps =>
    match loadRow parse steps with
    | .ok location => .ok location
    | .error _ => .error (notFound absent)

def find (table : LocationTable) (fault : Option Fault) (partition fileId : String) :
    Result FileLocation :=
  findRow parse ("Not found location for fileID : " ++ fileId)
    (table.selectByFileId partition fileId) fault

def findByFileSource (table : LocationTable) (fault : Option Fault)
    (partition fileSource : String) : Result FileLocation :=
  findRow parse ("位置记录不存在（按 file_source）：" ++ fileSource)
    (table.selectByFileSource partition fileSource) fault

/-- The loop of `List`: it goes on while a step gives a row. -/
def readRows : List (Step String) → Result (List FileLocation)
  | .row text :: rest => do
    let location ← parse text
    let locations ← readRows rest
    return location :: locations
  | _ => .ok []

/-- The count of the rows before paging. -/
def countRows (total : Nat) (fault : Option Fault) : Result Int :=
  match query [total] fault with
  | .error (code, message) => .error (sqliteError "准备计数失败" code message)
  | .ok (.row n :: _) => .ok n
  | .ok (.failed code message :: _) => .error (sqliteError "计数失败" code message)
  | .ok _ => .error (sqliteError "计数失败" 101 "no more rows available")

def readWindow (window : List String) (fault : Option Fault) : Result (List FileLocation) :=
  match query window fault with
  | .error (code, message) => .error (sqliteError "准备列表查询失败" code message)
  | .ok steps => readRows parse steps

def list (table : LocationTable) (countFault rowsFault : Option Fault) (partition : String)
    (q : LocationQuery) : Result LocationPage :=
  if q.limit ≤ 0 then .error (invalid "limit 必须 > 0")
  else if q.offset < 0 then .error (invalid "offset 必须 >= 0")
  else do
    let total ← countRows (table.listed partition q).length countFault
    let records ← readWindow parse (table.window partition q) rowsFault
    return { records, total }

/-! ## Faults that look like absence -/

/-- The row that is there is not read: its step fails, or its text is not understood. -/
def Conceals (rows : List String) (fault : Option Fault) : Prop :=
  ∃ text rest, rows = text :: rest ∧ ((∃ code message, fault = some (.step 0 code message)) ∨
    (∀ code message, fault ≠ some (.prepare code message)) ∧ ∃ e, parse text = .error e)

/-- A step fails before the last row of the window, and the rows before it are understood. -/
def EndsEarly (window : List String) (fault : Option Fault) : Prop :=
  ∃ n code message, fault = some (.step n code message) ∧ n < window.length ∧
    ∃ locations, (window.take n).mapM parse = .ok locations

/-- The listing reads its count and then fewer rows than the window has. -/
def Truncates (table : LocationTable) (countFault rowsFault : Option Fault) (partition : String)
    (q : LocationQuery) : Prop :=
  0 < q.limit ∧ 0 ≤ q.offset ∧
    (∃ total, countRows (table.listed partition q).length countFault = .ok total) ∧
    EndsEarly parse (table.window partition q) rowsFault

variable {parse} {table : LocationTable} {rows : List String} {fault : Option Fault}

theorem sqliteError_kind_ne_notFound (what : String) (code : Nat) (message : String) :
    (sqliteError what code message).kind ≠ .notFound := by
  unfold sqliteError Error.withDetail err
  split <;> simp

/-- Where the statement can be prepared, a lookup reports absence for every failed read. -/
theorem findRow_of_query {absent : String} {found : List (Step String)}
    (h : query rows fault = .ok found) :
    (∃ e, findRow parse absent rows fault = .error e ∧ e.kind = .notFound) ↔
      ∃ e, loadRow parse found = .error e := by
  unfold findRow
  simp only [h]
  cases loadRow parse found with
  | ok location => simp
  | error e => simp [notFound, err]

/-- A lookup tells the truth about absence unless a fault conceals the row. -/
theorem findRow_truthful_iff {absent : String} :
    (∀ e, findRow parse absent rows fault = .error e → e.kind = .notFound → rows = []) ↔
      ¬Conceals parse rows fault := by
  cases rows with
  | nil => simp [Conceals]
  | cons text rest =>
    have hlies : (∀ e, findRow parse absent (text :: rest) fault = .error e →
        e.kind = .notFound → text :: rest = []) ↔
          ¬∃ e, findRow parse absent (text :: rest) fault = .error e ∧ e.kind = .notFound := by
      simp
    rw [hlies, not_iff_not]
    cases fault with
    | none =>
      rw [findRow_of_query rfl]
      simp [Conceals, steps, loadRow]
    | some fault =>
      cases fault with
      | prepare code message =>
        have hkind := sqliteError_kind_ne_notFound "准备查询失败" code message
        simp [Conceals, findRow, query, hkind]
      | step n code message =>
        rw [findRow_of_query rfl]
        cases n with
        | zero => simp [Conceals, steps, loadRow]
        | succ n =>
          by_cases hn : n ≤ rest.length
          · simp [Conceals, steps, loadRow, hn]
          · simp [Conceals, steps, loadRow, hn]

/-- The loop stops at the first step that gives no row. -/
theorem readRows_map_row {last : List (Step String)} (hlast : readRows parse last = .ok [])
    (rows : List String) : readRows parse (rows.map .row ++ last) = rows.mapM parse := by
  induction rows with
  | nil => exact hlast
  | cons text rows ih => simp [readRows, ih, List.mapM_cons]

/-- The rows of a window are read to its end unless a fault ends them early. -/
theorem readWindow_exact_iff {window : List String} :
    (∀ records, readWindow parse window fault = .ok records →
        window.mapM parse = .ok records) ↔ ¬EndsEarly parse window fault := by
  have hdone : readRows parse (window.map .row ++ [.done]) = window.mapM parse :=
    readRows_map_row rfl window
  cases fault with
  | none => simp [EndsEarly, readWindow, query, steps, hdone]
  | some fault =>
    cases fault with
    | prepare code message => simp [EndsEarly, readWindow, query]
    | step n code message =>
      have hfailed : readRows parse ((window.take n).map .row ++ [.failed code message]) =
          (window.take n).mapM parse := readRows_map_row rfl _
      by_cases hn : n ≤ window.length
      · have hread : readWindow parse window (some (.step n code message)) =
            (window.take n).mapM parse := by
          simp only [readWindow, query, steps, if_pos hn, hfailed]
        rw [hread]
        constructor
        · rintro hexact ⟨_, _, _, ⟨⟩, hlt, locations, hlocations⟩
          have hshort := (mapM_eq_ok.mp hlocations).length_eq
          have hfull := (mapM_eq_ok.mp (hexact locations hlocations)).length_eq
          rw [List.length_take] at hshort
          omega
        · intro hcomplete records hrecords
          have hlength : window.length ≤ n := by
            by_contra hlt
            exact hcomplete ⟨n, code, message, rfl, by omega, records, hrecords⟩
          rwa [List.take_of_length_le hlength] at hrecords
      · have hread : readWindow parse window (some (.step n code message)) = window.mapM parse := by
          simp only [readWindow, query, steps, if_neg hn, hdone]
        rw [hread]
        refine ⟨fun _ => ?_, fun _ records hrecords => hrecords⟩
        rintro ⟨_, _, _, ⟨⟩, hlt, -⟩
        omega

theorem countRows_eq_ok {total : Nat} {n : Int} (h : countRows total fault = .ok n) : n = total := by
  cases fault with
  | none => simpa [countRows, query, steps, eq_comm] using h
  | some fault =>
    cases fault with
    | prepare code message => simp [countRows, query] at h
    | step k code message =>
      cases k with
      | zero => simp [countRows, query, steps] at h
      | succ k =>
        cases k with
        | zero => simpa [countRows, query, steps, eq_comm] using h
        | succ k => simpa [countRows, query, steps, eq_comm] using h

variable {countFault rowsFault : Option Fault} {partition : String} {q : LocationQuery}

theorem list_eq_ok {page : LocationPage} :
    list parse table countFault rowsFault partition q = .ok page ↔ 0 < q.limit ∧ 0 ≤ q.offset ∧
      countRows (table.listed partition q).length countFault = .ok page.total ∧
      readWindow parse (table.window partition q) rowsFault = .ok page.records := by
  unfold list
  split_ifs with hlimit hoffset
  · simp [hlimit]
  · simp [hoffset]
  · rw [not_le] at hlimit
    rw [not_lt] at hoffset
    cases countRows (table.listed partition q).length countFault with
    | error e => simp [bind, Except.bind]
    | ok total =>
      cases readWindow parse (table.window partition q) rowsFault with
      | error e => simp [bind, Except.bind]
      | ok records =>
        obtain ⟨pageRecords, pageTotal⟩ := page
        simp [bind, Except.bind, pure, Except.pure, hlimit, hoffset, and_comm]

/-- A listing that succeeds has the rows of its window unless it is truncated. -/
theorem list_exact_iff :
    (∀ page, list parse table countFault rowsFault partition q = .ok page →
      page.total = (table.listed partition q).length ∧
        (table.window partition q).mapM parse = .ok page.records) ↔
      ¬Truncates parse table countFault rowsFault partition q := by
  constructor
  · rintro hexact ⟨hlimit, hoffset, ⟨total, htotal⟩, hearly⟩
    refine readWindow_exact_iff.mp (fun records hrecords => ?_) hearly
    exact (hexact { records, total } (list_eq_ok.mpr ⟨hlimit, hoffset, htotal, hrecords⟩)).2
  · intro htruncates page hpage
    obtain ⟨hlimit, hoffset, htotal, hrecords⟩ := list_eq_ok.mp hpage
    refine ⟨countRows_eq_ok htotal, readWindow_exact_iff.mpr (fun hearly => ?_) _ hrecords⟩
    exact htruncates ⟨hlimit, hoffset, ⟨_, htotal⟩, hearly⟩

end Reads

end LocationRepository

end FileService.Sqlite
