import FileService.Domain.Ports
import FileService.Sqlite.GroupCommit
import FileService.Sqlite.MetadataTable

/-!
# The SQLite metadata repository

Every write has a statement-level version, which the group committer runs inside
a savepoint, and a `Locked` version, which opens and ends a transaction of its
own and drops the result of the `COMMIT`.
-/
namespace FileService.Sqlite
open FileService.Common FileService.Domain FileService.Infra FileService.Interaction

/-- How records are kept in the column `data`. -/
structure RecordCodec where
  dump : FileMetadataRecord → String
  parse : String → Result FileMetadataRecord

namespace MetadataRepository

abbrev Statements := Program (statements metadataSchema)
abbrev OnConnection := Program (connection metadataSchema)

def exec (s : MetadataStatement) : Statements (Except Code s.Answer) :=
  execute (S := metadataSchema) s

def invalid (message : String) : Error := err .invalidArgument message
def notFound : Error := err .notFound "Record Not Found"
def notClaiming : Error := err .notFound "Record Not Found（该版本不是 claiming 状态）"
def notBegun : Error := err .internal "开启事务失败"

def kSelectLatestById : String :=
  "\nSELECT version, previous_version, created_at, data FROM metadata\n WHERE partition_id = ? " ++
    "AND id = ? AND is_latest = 1 AND state = 'ready'"

def kSelectLatestBySource : String :=
  "\nSELECT version, previous_version, created_at, data FROM metadata\n WHERE partition_id = ? " ++
    "AND file_source = ? AND is_latest = 1 AND state = 'ready'"

def kSelectClaimBySource : String :=
  "\nSELECT version, state, data FROM metadata\n WHERE partition_id = ? AND file_source = ? " ++
    "AND is_latest = 1 AND state <> 'deleted'"

def queryFailed (sql : String) : Code → Error
  | .unprepared => err .internal ("prepare 失败：" ++ sql)
  | code => err .internal ("查询失败：" ++ code.text)

/-- The error of a statement that could not be prepared, or that failed at its step. -/
def stepFailed (unprepared failed : String) : Code → Error
  | .unprepared => err .internal unprepared
  | _ => err .internal failed

def validateRecord (partition : String) (record : FileMetadataRecord) : Result Unit :=
  if partition = "" then .error (invalid "partition 不能为空")
  else if record.id = "" then .error (invalid "record.id 不能为空")
  else if !Text.startsWith record.id (partition ++ ":") then
    .error (invalid "record.id 的前缀必须与 partition 一致")
  else if record.fileSource = "" then .error (invalid "file_source 不能为空（幂等键缺失）")
  else .ok ()

section Rows
variable (codec : RecordCodec)

/-- `RowToRecord`: the version is the one of the column. -/
def rowToRecord (row : MetadataRow) : Result FileMetadataRecord :=
  (codec.parse row.data).map fun record => { record with version := row.version }

def foundRow (sql : String) : Except Code (Option MetadataRow) → Result FileMetadataRecord
  | .error code => .error (queryFailed sql code)
  | .ok none => .error notFound
  | .ok (some row) => rowToRecord codec row

def findLatestById (partition recordId : String) : Statements (Result FileMetadataRecord) :=
  exec (.selectLatestById partition recordId) >>= fun answer =>
    pure (foundRow codec kSelectLatestById answer)

def findLatestBySource (partition fileSource : String) : Statements (Result FileMetadataRecord) :=
  exec (.selectLatestBySource partition fileSource) >>= fun answer =>
    pure (foundRow codec kSelectLatestBySource answer)

/-- The active record of a file source, as the answer to a claim that was not won. -/
def existingClaim : Except Code (Option MetadataRow) → Result MetadataClaim
  | .error code => .error (queryFailed kSelectClaimBySource code)
  | .ok none => .error notFound
  | .ok (some row) =>
    (rowToRecord codec row).map fun record =>
      { claimed := false, record, state := row.state }

def findClaimBySource (partition fileSource : String) : Statements (Result MetadataClaim) :=
  exec (.selectClaimBySource partition fileSource) >>= fun answer =>
    pure (existingClaim codec answer)

def insertVersionRow (partition : String) (stored : FileMetadataRecord) (fileSource : String)
    (createdAt : Int) (previousVersion : Option Int) (state : MetadataState) :
    Statements (Except Code Unit) :=
  exec (.insertVersion
    { partitionId := partition
      id := stored.id
      version := stored.version
      isLatest := true
      previousVersion
      fileSource
      kind := stored.kind
      name := stored.data.name.getD ""
      createdAt
      createdBy := ""
      data := codec.dump stored
      state })

/-! ## Claims -/

def claimedVersion (record : FileMetadataRecord) : FileMetadataRecord := { record with version := 1 }

def insertClaim (partition : String) (record : FileMetadataRecord) : Statements (Except Code Unit) :=
  now >>= fun createdAt =>
    insertVersionRow codec partition (claimedVersion record) record.fileSource createdAt none
      .claiming

def wonClaim (record : FileMetadataRecord) : Result MetadataClaim :=
  .ok { claimed := true, record := claimedVersion record, state := .claiming }

/-- After an insertion that failed: the record that holds the file source, if it was a
constraint that refused it. -/
def lostClaim (partition : String) (record : FileMetadataRecord) :
    Code → Statements (Result MetadataClaim)
  | .constraint => findClaimBySource codec partition record.fileSource >>= fun existing =>
    match existing with
    | .ok claim => pure (.ok claim)
    | .error _ => pure (.error (invalid ("同 id 已存在且 file_source 不同：" ++ record.id)))
  | code => pure (.error (err .internal ("插入元数据失败：" ++ code.text)))

def claimForWriteInTransaction (partition : String) (record : FileMetadataRecord) :
    Statements (Result MetadataClaim) :=
  findClaimBySource codec partition record.fileSource >>= fun existing => match existing with
  | .ok claim => pure (.ok claim)
  | .error _ => insertClaim codec partition record >>= fun inserted => match inserted with
    | .ok () => pure (wonClaim record)
    | .error code => lostClaim codec partition record code

def claimForWriteLocked (partition : String) (record : FileMetadataRecord) :
    OnConnection (Result MetadataClaim) :=
  onConnection (findClaimBySource codec partition record.fileSource) >>= fun quick => match quick with
  | .ok claim => pure (.ok claim)
  | .error _ => control .begin >>= fun began => match began with
    | .error _ => pure (.error notBegun)
    | .ok () =>
      onConnection (findClaimBySource codec partition record.fileSource) >>= fun existing =>
      match existing with
      | .ok claim => control .commit >>= fun _ => pure (.ok claim)
      | .error _ => onConnection (insertClaim codec partition record) >>= fun inserted =>
        match inserted with
        | .ok () => control .commit >>= fun _ => pure (wonClaim record)
        | .error code =>
          control .rollback >>= fun _ => onConnection (lostClaim codec partition record code)

/-! ## Marking and releasing -/

/-- Why an update of a claiming row changed nothing. -/
def markRefusal (fileSource : String) : Except Code (Option MetadataRow) → Error
  | .error .unprepared => err .internal "prepare 查询失败"
  | .error code => err .internal ("查询失败：" ++ code.text)
  | .ok none => notFound
  | .ok (some row) =>
    if row.state ≠ .claiming then notFound
    else if row.fileSource ≠ fileSource then
      invalid "MarkReady 不得改写 (partition, file_source) 幂等键"
    else notFound

def markReadyRow (partition recordId : String) (version : Int) (record : FileMetadataRecord) :
    Statements (Result FileMetadataRecord) :=
  let stored := { record with id := recordId, version := version }
  exec (.markReady (codec.dump stored) stored.kind (stored.data.name.getD "") partition recordId
    version record.fileSource) >>= fun answer => match answer with
  | .error code => pure (.error (stepFailed "prepare mark-ready 失败" "mark-ready 失败" code))
  | .ok changes =>
    if 0 < changes then pure (.ok stored)
    else exec (.selectVersionState partition recordId version) >>= fun probe =>
      pure (.error (markRefusal record.fileSource probe))

/-- Run a statement-level operation in a transaction of its own. -/
def inOwnTransaction {α : Type} (p : Statements (Result α)) : OnConnection (Result α) :=
  control .begin >>= fun began => match began with
  | .error _ => pure (.error notBegun)
  | .ok () => onConnection p >>= fun result => match result with
    | .ok a => control .commit >>= fun _ => pure (.ok a)
    | .error e => control .rollback >>= fun _ => pure (.error e)

def markReadyLocked (partition recordId : String) (version : Int) (record : FileMetadataRecord) :
    OnConnection (Result FileMetadataRecord) :=
  inOwnTransaction (markReadyRow codec partition recordId version record)

end Rows

/-- `ReleaseClaimInTransaction`; the `Locked` version is the same statement on its own. -/
def releaseClaimInTransaction (partition recordId : String) (version : Int) :
    Statements (Result Unit) :=
  exec (.releaseClaim partition recordId version) >>= fun answer => match answer with
  | .error code => pure (.error (stepFailed "prepare release 失败" "放弃领取失败" code))
  | .ok changes => pure (if changes = 0 then .error notClaiming else .ok ())

def releaseClaimLocked (partition recordId : String) (version : Int) : OnConnection (Result Unit) :=
  onConnection (releaseClaimInTransaction partition recordId version)

/-! ## Reclaiming -/

def deleteVictims (partition : String) : Int → List (String × Int) → Statements (Result Int)
  | reclaimed, [] => pure (.ok reclaimed)
  | reclaimed, (recordId, version) :: victims =>
    exec (.reclaimClaimingRow partition recordId version) >>= fun answer => match answer with
    | .error code => pure (.error (stepFailed "prepare 回收 claiming 失败" "回收 claiming 失败" code))
    | .ok changes => deleteVictims partition (reclaimed + changes) victims

def selectFailed : Code → Error
  | .unprepared => err .internal "prepare 回收 claiming 失败"
  | code => err .internal ("遍历 stale claiming 失败：" ++ code.text)

def reclaimStaleClaimingStatements (partition : String) (olderThanEpochSeconds limit : Int)
    (liveExpiredSources : List String) : Statements (Result Int) :=
  if limit ≤ 0 || liveExpiredSources.isEmpty then pure (.ok 0)
  else
    exec (.selectStaleClaiming partition olderThanEpochSeconds liveExpiredSources limit) >>=
      fun answer => match answer with
      | .error code => pure (.error (selectFailed code))
      | .ok victims => deleteVictims partition 0 victims

def reclaimStaleClaimingLocked (partition : String) (olderThanEpochSeconds limit : Int)
    (liveExpiredSources : List String) : OnConnection (Result Int) :=
  inOwnTransaction
    (reclaimStaleClaimingStatements partition olderThanEpochSeconds limit liveExpiredSources)

/-! ## Updates -/

section Update
variable (codec : RecordCodec)

def nextVersion (record existing : FileMetadataRecord) : FileMetadataRecord :=
  { record with version := existing.version + 1 }

def updateRefusal (record existing : FileMetadataRecord) : Option Error :=
  if existing.fileSource ≠ record.fileSource then
    some (invalid "Update 不得改写 (partition, file_source) 幂等键")
  else none

/-- The two statements that replace the latest version. -/
def storeNextVersion (partition : String) (record existing : FileMetadataRecord)
    (createdAt : Int) : Statements (Result FileMetadataRecord) :=
  let stored := nextVersion record existing
  exec (.clearLatest partition stored.id) >>= fun cleared => match cleared with
  | .error code => pure (.error (stepFailed "prepare update 失败" "清理旧 latest 标记失败" code))
  | .ok _ =>
    insertVersionRow codec partition stored record.fileSource createdAt (some existing.version)
      .ready >>= fun inserted => match inserted with
    | .error code => pure (.error (err .internal ("写入新版本失败：" ++ code.text)))
    | .ok () => pure (.ok stored)

def updateInTransaction (partition : String) (record : FileMetadataRecord) :
    Statements (Result FileMetadataRecord) :=
  findLatestById codec partition record.id >>= fun found => match found with
  | .error e => pure (.error e)
  | .ok existing => match updateRefusal record existing with
    | some e => pure (.error e)
    | none => now >>= fun createdAt => storeNextVersion codec partition record existing createdAt

/-- The reading precedes the transaction. -/
def updateLocked (partition : String) (record : FileMetadataRecord) :
    OnConnection (Result FileMetadataRecord) :=
  onConnection (findLatestById codec partition record.id) >>= fun found => match found with
  | .error e => pure (.error e)
  | .ok existing => match updateRefusal record existing with
    | some e => pure (.error e)
    | none => onConnection now >>= fun createdAt =>
      inOwnTransaction (storeNextVersion codec partition record existing createdAt)

end Update

/-! ## Deletion -/

/-- `DeleteInTransaction`; the `Locked` version is the same two statements on their own. -/
def deleteInTransaction (partition recordId : String) : Statements (Result Unit) :=
  exec (.countVersions partition recordId) >>= fun counted => match counted with
  | .error code => pure (.error (stepFailed "prepare count 失败" "统计版本失败" code))
  | .ok 0 => pure (.error notFound)
  | .ok _ => exec (.deleteAllVersions partition recordId) >>= fun deleted => match deleted with
    | .error code => pure (.error (stepFailed "prepare delete 失败" "删除元数据失败" code))
    | .ok _ => pure (.ok ())

def deleteLocked (partition recordId : String) : OnConnection (Result Unit) :=
  onConnection (deleteInTransaction partition recordId)

end MetadataRepository

end FileService.Sqlite
