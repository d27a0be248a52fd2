import FileService.Postgres.LeaderElection
import FileService.Postgres.MetadataTable
import FileService.Sqlite.MetadataRepository

/-!
# The metadata repository on the database

The methods of `PostgresMetadataRepository`. Only an update runs a transaction,
and it reads the version that it is going to replace before the transaction begins.
-/
namespace FileService.Postgres.Metadata
open FileService.Common FileService.Domain FileService.Infra FileService.Interaction
open FileService.Sqlite.MetadataRepository (invalid notFound validateRecord)

/-! ## Reading rows -/

/-- The version is the one of the column. -/
def rowToRecord (row : Row) : Result FileMetadataRecord :=
  (parseFileMetadataRecord row.data).map fun record => { record with version := row.version }

def queryFailed (e : Error) : Error := annotate e "查询元数据记录失败"

def foundRecord : Result (Option Row) → Result FileMetadataRecord
  | .error e => .error (queryFailed e)
  | .ok none => .error notFound
  | .ok (some row) => rowToRecord row

def findLatestById (partition recordId : String) : Program sql (Result FileMetadataRecord) := do
  return foundRecord (← query (.selectLatestById partition recordId))

def findLatestBySource (partition fileSource : String) :
    Program sql (Result FileMetadataRecord) := do
  return foundRecord (← query (.selectLatestBySource partition fileSource))

/-- The active record of a file source, as the answer to a claim that was not won. -/
def existingClaim : Result (Option Row) → Result MetadataClaim
  | .error e => .error (queryFailed e)
  | .ok none => .error notFound
  | .ok (some row) =>
    (rowToRecord row).map fun record => { claimed := false, record, state := row.state }

def findClaimBySource (partition fileSource : String) : Program sql (Result MetadataClaim) := do
  return existingClaim (← query (.selectClaimBySource partition fileSource))

/-- The row of a version of the record. -/
def versionRow (partition : String) (stored : FileMetadataRecord) (fileSource : String)
    (createdAt : Int) (state : MetadataState) : Row :=
  { partitionId := partition
    id := stored.id
    version := stored.version
    kind := stored.kind
    state
    isLatest := true
    createdAt
    aclViewers := stored.acl.viewers
    aclOwners := stored.acl.owners
    legalTags := stored.legal.legaltags
    fileSource
    data := toJson stored }

/-! ## Claims -/

section Claims
variable (partition : String) (record : FileMetadataRecord)

def claimedVersion : FileMetadataRecord := { record with version := 1 }

/-- After an insertion that has inserted nothing. -/
def lostClaim (otherwise : Error) : Program sql (Result MetadataClaim) := do
  match ← findClaimBySource partition record.fileSource with
  | .ok claim => return .ok claim
  | .error _ => return .error otherwise

def insertClaim : Program sql (Result MetadataClaim) := do
  let createdAt ← now
  match ← query (.claimInsert
      (versionRow partition (claimedVersion record) record.fileSource createdAt .claiming)) with
  | .error e =>
    if e.kind = .locationAlreadyExists then
      lostClaim partition record (invalid ("同 id 已存在且 file_source 不同：" ++ record.id))
    else return .error (annotate e "插入元数据失败")
  | .ok 0 =>
    lostClaim partition record
      (err .internal "插入元数据失败：claim 未插入且按 file_source 回读为空")
  | .ok _ => return .ok { claimed := true, record := claimedVersion record, state := .claiming }

def claimForWrite : Program sql (Result MetadataClaim) := do
  match validateRecord partition record with
  | .error e => return .error e
  | .ok () =>
    match ← query .borrow with
    | .error e => return .error e
    | .ok () =>
      match ← findClaimBySource partition record.fileSource with
      | .ok claim => return .ok claim
      | .error _ => insertClaim partition record

/-- Why marking a claim has changed nothing. -/
def markRefusal : Result (Option Row) → Error
  | .error e => annotate e "查询元数据版本失败"
  | .ok none => notFound
  | .ok (some row) =>
    if row.state ≠ .claiming then notFound
    else if row.fileSource ≠ record.fileSource then
      invalid "MarkReady 不得改写 (partition, file_source) 幂等键"
    else notFound

def marking (recordId : String) (version : Int) : Marking :=
  let stored := { record with id := recordId, version := version }
  { partition
    id := recordId
    version
    fileSource := record.fileSource
    data := toJson stored
    kind := stored.kind
    aclViewers := stored.acl.viewers
    aclOwners := stored.acl.owners
    legalTags := stored.legal.legaltags }

def markReady (recordId : String) (version : Int) : Program sql (Result FileMetadataRecord) := do
  match validateRecord partition record with
  | .error e => return .error e
  | .ok () =>
    match ← query .borrow with
    | .error e => return .error e
    | .ok () =>
      match ← query (.markReady (marking partition record recordId version)) with
      | .error e => return .error (annotate e "mark-ready 失败")
      | .ok (some row) => return rowToRecord row
      | .ok none =>
        return .error (markRefusal record
          (← query (.selectVersionState partition recordId version)))

def create : Program sql (Result FileMetadataRecord) := do
  match validateRecord partition record with
  | .error e => return .error e
  | .ok () =>
    match ← claimForWrite partition record with
    | .error e => return .error e
    | .ok claim =>
      if claim.claimed then markReady partition claim.record claim.record.id claim.record.version
      else return .ok claim.record

end Claims

def emptyPartition : Error := invalid "partition 不能为空"

def releaseClaim (partition recordId : String) (version : Int) : Program sql (Result Unit) := do
  if partition = "" then return .error emptyPartition
  else
    match ← query .borrow with
    | .error e => return .error e
    | .ok () =>
      match ← query (.releaseClaim partition recordId version) with
      | .error e => return .error (annotate e "放弃领取失败")
      | .ok 0 => return .error Sqlite.MetadataRepository.notClaiming
      | .ok _ => return .ok ()

def reclaimStaleClaiming (partition : String) (olderThanEpochSeconds limit : Int)
    (liveExpiredSources : List String) : Program sql (Result Nat) := do
  if partition = "" then return .error emptyPartition
  else if limit ≤ 0 || liveExpiredSources.isEmpty then return .ok 0
  else
    match ← query .borrow with
    | .error e => return .error e
    | .ok () =>
      match ← query (.reclaimStaleClaiming partition olderThanEpochSeconds liveExpiredSources
          limit) with
      | .error e => return .error (annotate e "回收 claiming 记录失败")
      | .ok n => return .ok n

/-! ## Reading -/

def getById (partition recordId : String) : Program sql (Result FileMetadataRecord) := do
  if partition = "" then return .error emptyPartition
  else
    match ← query .borrow with
    | .error e => return .error e
    | .ok () => findLatestById partition recordId

def getLatestByFileSource (partition fileSource : String) :
    Program sql (Result FileMetadataRecord) := do
  if partition = "" then return .error emptyPartition
  else
    match ← query .borrow with
    | .error e => return .error e
    | .ok () => findLatestBySource partition fileSource

def versionCount (partition recordId : String) : Program sql Nat := do
  match ← query .borrow with
  | .error _ => return 0
  | .ok () =>
    match ← query (.countVersions partition recordId) with
    | .error _ => return 0
    | .ok n => return n

/-! ## Updates and deletions -/

section Update
variable (partition : String) (record existing : FileMetadataRecord)

def nextVersion : FileMetadataRecord := { record with version := existing.version + 1 }

def rolledBack (e : Error) : Program sql (Result FileMetadataRecord) := do
  let _ ← query .rollback
  return .error e

def commitVersion (stored : FileMetadataRecord) : Program sql (Result FileMetadataRecord) := do
  match ← query .commit with
  | .error e => rolledBack (annotate e "提交事务失败")
  | .ok () => return .ok stored

/-- The transaction: the old version is not the latest any more, and the new one is. -/
def replaceLatest (createdAt : Int) : Program sql (Result FileMetadataRecord) := do
  let stored := nextVersion record existing
  match ← query .begin with
  | .error e => return .error (annotate e "开启事务失败")
  | .ok () =>
    match ← query (.clearLatest partition stored.id) with
    | .error e => rolledBack (annotate e "清理旧 latest 标记失败")
    | .ok 0 => rolledBack (err .internal "清理旧 latest 标记失败：未命中任何行")
    | .ok _ =>
      match ← query (.insertVersion
          (versionRow partition stored record.fileSource createdAt .ready)) with
      | .error e => rolledBack (annotate e "写入新版本失败")
      | .ok () => commitVersion stored

def update : Program sql (Result FileMetadataRecord) := do
  match validateRecord partition record with
  | .error e => return .error e
  | .ok () =>
    match ← query .borrow with
    | .error e => return .error e
    | .ok () =>
      match ← findLatestById partition record.id with
      | .error e => return .error e
      | .ok existing =>
        if existing.fileSource ≠ record.fileSource then
          return .error (invalid "Update 不得改写 (partition, file_source) 幂等键")
        else
          let createdAt ← now
          replaceLatest partition record existing createdAt

end Update

def delete (partition recordId : String) : Program sql (Result Unit) := do
  if partition = "" then return .error emptyPartition
  else
    match ← query .borrow with
    | .error e => return .error e
    | .ok () =>
      match ← query (.deleteAllVersions partition recordId) with
      | .error e => return .error (annotate e "删除元数据失败")
      | .ok 0 => return .error notFound
      | .ok _ => return .ok ()

/-! ## The repository under many callers -/

inductive Method where
  | create (partition : String) (record : FileMetadataRecord)
  | claimForWrite (partition : String) (record : FileMetadataRecord)
  | markReady (partition recordId : String) (version : Int) (record : FileMetadataRecord)
  | releaseClaim (partition recordId : String) (version : Int)
  | reclaimStaleClaiming (partition : String) (olderThanEpochSeconds limit : Int)
      (liveExpiredSources : List String)
  | getById (partition recordId : String)
  | getLatestByFileSource (partition fileSource : String)
  | versionCount (partition recordId : String)
  | update (partition : String) (record : FileMetadataRecord)
  | delete (partition recordId : String)

abbrev Method.Answer : Method → Type
  | .create .. => Result FileMetadataRecord
  | .claimForWrite .. => Result MetadataClaim
  | .markReady .. => Result FileMetadataRecord
  | .releaseClaim .. => Result Unit
  | .reclaimStaleClaiming .. => Result Nat
  | .getById .. => Result FileMetadataRecord
  | .getLatestByFileSource .. => Result FileMetadataRecord
  | .versionCount .. => Nat
  | .update .. => Result FileMetadataRecord
  | .delete .. => Result Unit

def Method.body : (m : Method) → Program sql m.Answer
  | .create partition record => Metadata.create partition record
  | .claimForWrite partition record => Metadata.claimForWrite partition record
  | .markReady partition recordId version record =>
    Metadata.markReady partition record recordId version
  | .releaseClaim partition recordId version => Metadata.releaseClaim partition recordId version
  | .reclaimStaleClaiming partition olderThan limit sources =>
    Metadata.reclaimStaleClaiming partition olderThan limit sources
  | .getById partition recordId => Metadata.getById partition recordId
  | .getLatestByFileSource partition fileSource =>
    Metadata.getLatestByFileSource partition fileSource
  | .versionCount partition recordId => Metadata.versionCount partition recordId
  | .update partition record => Metadata.update partition record
  | .delete partition recordId => Metadata.delete partition recordId

/-- Any number of callers, on any number of hosts, with any calls. -/
def repository (ι : Type) [DecidableEq ι] :
    Component ι sql (Database ι) Method Method.Answer where
  exec i s call r s' := Database.Exec i s call r s'
  env s s' := s.Loses s'
  body := Method.body
  allowed _ _ _ := True

end FileService.Postgres.Metadata
