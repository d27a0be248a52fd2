import FileService.Common.Segments
import FileService.Posix.CommitBatch

/-!
# The POSIX blob store

Objects are files below the root; the metadata of an object is a second file,
its sidecar. A put writes temporary files and renames them, alone or in a batch,
or writes the object in place.
-/
namespace FileService.Posix
open FileService.Common FileService.Domain FileService.Interaction

inductive FsyncPolicy where
  | always
  | never
  | bySize
deriving DecidableEq

def shouldFsync (policy : FsyncPolicy) (objectBytes thresholdBytes : Int) : Bool :=
  match policy with
  | .always => true
  | .never => false
  | .bySize => thresholdBytes ≤ 0 || thresholdBytes ≤ objectBytes

/-- A store: its options, what its temporary names are made of, and the hash and the JSON
texts of the deployment. -/
structure PosixBlobStore where
  root : String
  fsyncPolicy : FsyncPolicy := .always
  fsyncThresholdBytes : Int := 1024 * 1024
  instanceId : String := "local"
  dirMode : Nat := 0o750
  atomicWrite : Bool := true
  batchCommit : Bool := false
  syncDirAfterBatch : Bool := true
  pid : Nat
  tmpToken : String
  sha256Hex : Bytes → String
  dump : Json.Value → Bytes
  parseObject : Bytes → Result Json.Value

def sidecarSuffix : String := ".fssmeta"
def tempMarker : String := ".tmp."

/-- The path of the sidecar of an object. -/
def sidecarOf (path : String) : String := path ++ sidecarSuffix

/-- `IsInternalKey`: what `list` does not show. -/
def isInternalKey (relativeKey : String) : Bool :=
  Text.endsWith relativeKey sidecarSuffix || Text.containsText relativeKey tempMarker

/-- What `remove_temp_files` removes when it is old enough. -/
def isTempFile (relativeKey : String) : Bool := Text.containsText relativeKey tempMarker

/-- The part of a store's work that may end with an error. -/
abbrev Attempt (α : Type) := Interaction.Action posix Error α

namespace Attempt
variable {α : Type}

def ask (call : Call) : Attempt call.Reply := Interaction.Action.call (I := posix) call

/-- `FSS_TRY` on a result. -/
def tryResult : Result α → Attempt α
  | .ok a => pure a
  | .error e => throw e

/-- The result of a part, for a caller that looks at it. -/
def result (x : Attempt α) : Attempt (Result α) := Interaction.Action.lift (ExceptT.run x)

/-- A call whose reply is dropped. -/
def tell (call : Call) : Attempt Unit := discard (ask call)

end Attempt

open Attempt

/-! ## Paths -/

def maxKeyBytes : Nat := 1024

def pathError (key reason : String) : Error :=
  (err .invalidArgument ("非法路径键 \"" ++ key ++ "\": " ++ reason)).withDetail "reason" reason

def segmentError (segment : String) : Option String :=
  if segment = "" then some "存在空路径段（如 'a//b'）"
  else if segment = "." then some "存在 '.' 路径段"
  else if segment = ".." then some "存在 '..' 路径段（路径穿越）"
  else none

def normalizeKey (key : String) : Result String :=
  if key = "" then .error (pathError key "键为空")
  else if maxKeyBytes < Text.byteSize key then
    .error (pathError key ("键过长（>" ++ toString maxKeyBytes ++ " 字节）"))
  else if key.toList.contains '\x00' then .error (pathError key "含 NUL 字节")
  else if Text.startsWith key "/" then .error (pathError key "不允许绝对路径")
  else if key.toList.getLast? = some '/' then
    .error (pathError key "不允许以 '/' 结尾（只接受文件键）")
  else
    let segments := Text.splitOnChar '/' key
    match segments.findSome? segmentError with
    | some reason => .error (pathError key reason)
    | none => .ok ("/".intercalate segments)

def lexicalJoin (root key : String) : Result String := do
  let norm ← normalizeKey key
  if root = "" then .error (err .invalidArgument "root 为空")
  else
    let base := if root.toList.getLast? = some '/' then String.ofList root.toList.dropLast else root
    return base ++ "/" ++ norm

def safeJoin (root key : String) : Attempt String := do
  let joined ← tryResult (lexicalJoin root key)
  tryResult (← ask (.verifyResolvedWithinRoot root joined))
  return joined

namespace PosixBlobStore
variable (store : PosixBlobStore)

def containerDir (container : String) : Result String := lexicalJoin store.root container

def objectPath (container key : String) : Attempt String := do
  let dir ← tryResult (store.containerDir container)
  if ← ask (.fileExists dir) then safeJoin dir key
  else throw (err .notFound ("容器不存在：" ++ container))

def writableObjectPath (container key : String) : Attempt String := do
  let path ← store.objectPath container key
  if path.toList.contains '/' then
    tryResult (← ask (.ensureDir (parentDirectory path) store.dirMode))
  store.objectPath container key

def tempPathFor (target : String) : Attempt String := do
  let counter ← ask .nextTmpCounter
  return target ++ tempMarker ++ store.instanceId ++ "." ++ toString store.pid ++ "." ++
    toString counter ++ "." ++ store.tmpToken

/-! ## Sidecars -/

def sysError (kind : ErrorKind) (message path : String) (failure : Failure) : Error :=
  ((err kind message).withDetail "path" path).withDetail "errno" (toString failure.errno.code)

/-- The JSON object of a sidecar. -/
def metaOf (st : ObjectStat) : Json.Value :=
  (((((Json.Value.object []).set "content_type" (.string st.contentType)).set
    "checksum" (.string st.checksum)).set
    "checksum_algorithm" (.string st.checksumAlgorithm)).set
    "size" (.integer st.size)).set
    "last_modified_epoch_seconds" (.integer st.lastModifiedEpochSeconds)

/-- `WriteTmpFile` -/
def writeTmpFile (path : String) (data : Bytes) : Attempt Unit := do
  match ← ask (.openExclusive path) with
  | .error failure => throw (errFromErrno "创建临时文件失败" failure)
  | .ok file =>
    match ← ask (.writeAll file data) with
    | .error failure =>
      tell (.close file)
      tell (.unlink path)
      throw (errFromErrno "写入临时文件失败" failure)
    | .ok _ =>
      match ← ask (.close file) with
      | .error failure =>
        tell (.unlink path)
        throw (errFromErrno "close 失败" failure)
      | .ok _ => return ()

/-- Write a temporary file and, if asked to, flush it. -/
def writeDurably (file : Handle) (data : Bytes) (fsyncData : Bool) : Attempt (Sys Unit) := do
  match ← ask (.writeAll file data) with
  | .error failure => return .error failure
  | .ok _ => if fsyncData then ask (.fdatasync file) else return .ok ()

def syncParent (path : String) : Attempt Unit := do
  let dir := parentDirectory path
  if dir = "" then return ()
  else
    match ← ask (.openDirectory dir) with
    | .error failure => throw (sysError .internal "打开目录失败" dir failure)
    | .ok file =>
      let synced ← ask (.fsync file)
      tell (.close file)
      match synced with
      | .error failure => throw (sysError .internal "fsync 目录失败" dir failure)
      | .ok _ => return ()

/-- `AtomicWriteFile`; `errno` is that of the last call that failed. -/
def atomicWriteFile (path : String) (data : Bytes) (fsync : Bool) : Attempt Unit := do
  let hex ← ask .randomHex
  let tmp := path ++ tempMarker ++ toString store.pid ++ "." ++ store.instanceId ++
    (if store.instanceId = "" then "" else ".") ++ hex
  match ← ask (.openTruncated tmp) with
  | .error failure => throw (sysError .internal "创建临时文件失败" tmp failure)
  | .ok file =>
    let written ← writeDurably file data fsync
    let closed ← ask (.close file)
    match written, closed with
    | .ok _, .ok _ =>
      match ← ask (.rename tmp path) with
      | .error failure =>
        tell (.unlink tmp)
        throw (sysError .internal "rename 失败" path failure)
      | .ok _ => if fsync then syncParent path else return ()
    | _, .error failure =>
      tell (.unlink tmp)
      throw (sysError .internal "写入临时文件失败" tmp failure)
    | .error failure, _ =>
      tell (.unlink tmp)
      throw (sysError .internal "写入临时文件失败" tmp failure)

def writeSidecar (objectPath : String) (st : ObjectStat) (fsync : Bool) : Attempt Unit :=
  store.atomicWriteFile (sidecarOf objectPath) (store.dump (metaOf st)) fsync

def textMember (value : Json.Value) (name : String) : String :=
  match value.find? name with
  | some (.string s) => s
  | _ => ""

/-- What a sidecar says of its object. -/
def statOfMeta (value : Json.Value) : ObjectStat where
  «exists» := true
  contentType := textMember value "content_type"
  checksum := textMember value "checksum"
  checksumAlgorithm := textMember value "checksum_algorithm"

def readSidecar (objectPath : String) : Attempt ObjectStat := do
  let text ← tryResult (← ask (.readFile (sidecarOf objectPath)))
  let value ← tryResult (store.parseObject text)
  return statOfMeta value

/-! ## Batches -/

/-- Commit a batch and tell its members; the results are in the order of the entries. -/
def commitAndTell (batch : Nat) (entries : List BatchEntry) : Program posix (List (Result Unit)) :=
  perform .lockCommit >>= fun _ =>
  commitBatch store.syncDirAfterBatch entries >>= fun results =>
  perform .unlockCommit >>= fun _ =>
  perform (.finishBatch batch results) >>= fun _ => pure results

/-- The results of the batch: the writer that fills it commits it, or its first writer when
it is still open after the wait; the others wait. -/
def batchResults (seat : Seat) : Program posix (List (Result Unit)) :=
  match seat.committed with
  | some entries => store.commitAndTell seat.batch entries
  | none =>
    if seat.index = 0 then
      perform (.awaitFull seat.batch) >>= fun open? => match open? with
      | some entries => store.commitAndTell seat.batch entries
      | none => perform (.awaitDone seat.batch)
    else perform (.awaitDone seat.batch)

def joinBatch (renames : List PendingRename) : Attempt Unit := do
  let seat ← ask (.enterBatch renames)
  let results ← Interaction.Action.lift (store.batchResults seat)
  tryResult (results[seat.index]?.getD (.ok ()))

/-! ## Operations -/

/-- A stream: the chunks it delivers, and the error it ends with, if it does. -/
structure ByteSource where
  chunks : List Bytes
  failure : Option Error := none

/-- Drop the file that was being written. -/
def cleanup (file : Handle) (tmp : String) : Attempt Unit := do
  tell (.close file)
  tell (.unlink tmp)

/-- Write the chunks of the stream; a chunk without bytes is its end. -/
def receive (file : Handle) (tmp : String) (failure : Option Error) :
    List Bytes → Bytes → Attempt Bytes
  | [], received =>
    match failure with
    | some e => do
      cleanup file tmp
      throw e
    | none => pure received
  | chunk :: chunks, received =>
    if chunk = [] then pure received
    else do
      match ← ask (.writeAll file chunk) with
      | .error failure =>
        cleanup file tmp
        throw (errFromErrno "写入失败" failure)
      | .ok _ => receive file tmp failure chunks (received ++ chunk)

def normalizeAlgorithm (text : String) : String := Text.normalizedName ['-', '_'] text

/-- The checks on the bytes received. -/
def checkReceived (data : Bytes) (options : PutOptions) : Result Unit :=
  if 0 ≤ options.expectedSize ∧ (data.length : Int) ≠ options.expectedSize then
    .error (((err .invalidArgument "写入长度与 expected_size 不符").withDetail "expected"
      (toString options.expectedSize)).withDetail "actual" (toString data.length))
  else if options.expectedChecksum = "" then .ok ()
  else if options.checksumAlgorithm = "" then
    .error (err .invalidArgument "提供 expected_checksum 时必须同时给 checksum_algorithm")
  else if normalizeAlgorithm options.checksumAlgorithm ≠ "sha256" then
    .error (err .invalidArgument ("不支持的校验和算法：" ++ options.checksumAlgorithm))
  else if Text.toLower (store.sha256Hex data) ≠ Text.toLower options.expectedChecksum then
    .error (((err .checksumMismatch "校验和不符").withDetail "expected"
      options.expectedChecksum).withDetail "actual" (store.sha256Hex data))
  else .ok ()

/-- Open the file that a put or a copy writes: a new temporary one, or the object itself. -/
def openTarget (tmp : String) : Attempt (Sys Handle) :=
  if store.atomicWrite then ask (.openExclusive tmp) else ask (.openTruncated tmp)

def targetOf (path : String) : Attempt String :=
  if store.atomicWrite then store.tempPathFor path else return path

def needsSync (data : Bytes) : Bool :=
  shouldFsync store.fsyncPolicy data.length store.fsyncThresholdBytes

/-- Receive the bytes, check them, flush them if need be and close the file. -/
def writeObject (file : Handle) (tmp : String) (source : ByteSource) (options : PutOptions) :
    Attempt Bytes := do
  let data ← receive file tmp source.failure source.chunks []
  match store.checkReceived data options with
  | .error e =>
    cleanup file tmp
    throw e
  | .ok _ =>
    if store.needsSync data then
      match ← ask (.dataSync file) with
      | .error e =>
        cleanup file tmp
        throw e
      | .ok _ => pure ()
    match ← ask (.close file) with
    | .error failure =>
      tell (.unlink tmp)
      throw (errFromErrno "close 失败" failure)
    | .ok _ => return data

/-- The metadata of the bytes that were put. -/
def statOfPut (data : Bytes) (options : PutOptions) (now : Int) : ObjectStat where
  «exists» := true
  size := data.length
  contentType := options.contentType
  checksum := store.sha256Hex data
  checksumAlgorithm := "SHA256"
  lastModifiedEpochSeconds := now

/-- The object and its sidecar enter a batch. -/
def publishInBatch (tmp path : String) (st : ObjectStat) : Attempt Unit := do
  let sidecarTmp ← store.tempPathFor (sidecarOf path)
  match ← result (writeTmpFile sidecarTmp (store.dump (metaOf st))) with
  | .error e =>
    tell (.unlink tmp)
    throw e
  | .ok _ => store.joinBatch [⟨tmp, path⟩, ⟨sidecarTmp, sidecarOf path⟩]

/-- The object is renamed, unless it was written in place, and the sidecar follows. -/
def publishAlone (tmp path : String) (st : ObjectStat) (needSync : Bool) : Attempt Unit := do
  if store.atomicWrite then
    match ← ask (.rename tmp path) with
    | .error failure =>
      tell (.unlink tmp)
      throw (errFromErrno "rename 失败" failure)
    | .ok _ => pure ()
  if needSync && store.syncDirAfterBatch then tell (.syncDirectory (parentDirectory path))
  store.writeSidecar path st needSync

/-- A put from where the path of the object is known. -/
def putAt (path : String) (source : ByteSource) (options : PutOptions) : Attempt Unit := do
  let tmp ← store.targetOf path
  match ← store.openTarget tmp with
  | .error failure =>
    throw (errFromErrno (if store.atomicWrite then "创建临时文件失败" else "创建目标文件失败") failure)
  | .ok file =>
    let data ← store.writeObject file tmp source options
    let now ← ask .nowEpochSeconds
    let st := store.statOfPut data options now
    if store.atomicWrite && store.batchCommit && !store.needsSync data then
      store.publishInBatch tmp path st
    else store.publishAlone tmp path st (store.needsSync data)

def put (ref : ObjectRef) (source : ByteSource) (options : PutOptions) : Attempt Unit := do
  let path ← store.writableObjectPath ref.container ref.key
  store.putAt path source options

/-- The part of an object that a range asks for: offset and number of bytes. -/
def rangeOf (range : ByteRange) (size : Nat) : Result (Nat × Nat) :=
  if range.isWholeObject then .ok (0, size)
  else if size ≤ range.offset then .error (err .invalidArgument "区间起点越界")
  else
    let available := size - range.offset
    .ok (range.offset, if range.length = 0 then available else min range.length available)

def get (ref : ObjectRef) (range : ByteRange) : Attempt Bytes := do
  let path ← store.objectPath ref.container ref.key
  match ← ask (.openRead path) with
  | .error failure =>
    if failure.errno = .enoent then throw (err .notFound ("对象不存在：" ++ ref.toText))
    else throw (errFromErrno "打开对象失败" failure)
  | .ok file =>
    match ← ask (.fstat file) with
    | .error failure =>
      tell (.close file)
      throw (errFromErrno "fstat 失败" failure)
    | .ok size =>
      match rangeOf range size with
      | .error e =>
        tell (.close file)
        throw e
      | .ok (offset, count) =>
        match ← ask (.pread file offset count) with
        | .error failure =>
          tell (.close file)
          throw (errFromErrno "pread 失败" failure)
        | .ok data =>
          tell (.close file)
          return data

def stat (ref : ObjectRef) : Attempt ObjectStat := do
  match store.containerDir ref.container with
  | .error _ => return {}
  | .ok dir =>
    if !(← ask (.fileExists dir)) then return {}
    else
      let path ← safeJoin dir ref.key
      match ← ask (.stat path) with
      | .error _ => return {}
      | .ok (size, mtime) =>
        let found : ObjectStat := { «exists» := true, size, lastModifiedEpochSeconds := mtime }
        match ← result (store.readSidecar path) with
        | .error _ => return found
        | .ok sidecar =>
          return { found with
            contentType := sidecar.contentType
            checksum := sidecar.checksum
            checksumAlgorithm := sidecar.checksumAlgorithm }

def remove (ref : ObjectRef) : Attempt Unit := do
  let dir ← tryResult (store.containerDir ref.container)
  if !(← ask (.fileExists dir)) then return ()
  else
    let path ← safeJoin dir ref.key
    match ← ask (.unlink path) with
    | .error failure =>
      if failure.errno ≠ .enoent then throw (errFromErrno "删除对象失败" failure)
      else tell (.unlink (sidecarOf path))
    | .ok _ => tell (.unlink (sidecarOf path))

/-- Copy the bytes, flush them if need be and close both files. -/
def copyBytes (source target : Handle) : Attempt (Bool × Bool) := do
  let size ← ask (.fstat source)
  let copiedBytes : Int := match size with
    | .ok size => size
    | .error _ => 0
  let needSync := store.batchCommit ||
    shouldFsync store.fsyncPolicy copiedBytes store.fsyncThresholdBytes
  let copied ← ask (.copyFd source target)
  let flushed ←
    if copied && needSync then do
      let synced ← ask (.dataSync target)
      pure (Result.isOk synced)
    else pure copied
  let closedSource ← ask (.close source)
  let closedTarget ← ask (.close target)
  return (flushed && Except.toBool closedSource && Except.toBool closedTarget, needSync)

/-- The copy becomes the object; a copy that was written in place already is. -/
def publishCopy (ok : Bool) (tmp path : String) : Attempt Unit := do
  if !ok then
    tell (.unlink tmp)
    throw (err .internal "复制失败")
  else if store.atomicWrite then
    match ← ask (.rename tmp path) with
    | .error failure =>
      tell (.unlink tmp)
      throw (errFromErrno "rename 失败" failure)
    | .ok _ => return ()

/-- The sidecar follows the copy, if the source has one that can be read. -/
def copySidecar (fromPath toPath : String) (needSync : Bool) : Attempt Unit := do
  match ← result (store.readSidecar fromPath) with
  | .error _ => return ()
  | .ok st =>
    let now ← ask .nowEpochSeconds
    store.writeSidecar toPath { st with lastModifiedEpochSeconds := now } needSync

/-- A copy from where both paths are known. -/
def copyAt (source : ObjectRef) (fromPath toPath : String) : Attempt Unit := do
  match ← ask (.openRead fromPath) with
  | .error failure =>
    if failure.errno = .enoent then throw (err .notFound ("复制源不存在：" ++ source.toText))
    else throw (errFromErrno "打开复制源失败" failure)
  | .ok input =>
    let tmp ← store.targetOf toPath
    match ← store.openTarget tmp with
    | .error failure =>
      tell (.close input)
      throw (errFromErrno "创建复制目标失败" failure)
    | .ok output =>
      let (ok, needSync) ← store.copyBytes input output
      store.publishCopy ok tmp toPath
      if needSync then tell (.syncDirectory (parentDirectory toPath))
      store.copySidecar fromPath toPath needSync

def copy (source target : ObjectRef) : Attempt ObjectStat := do
  let fromPath ← store.objectPath source.container source.key
  let toDir ← tryResult (store.containerDir target.container)
  if !(← ask (.fileExists toDir)) then
    throw (err .notFound ("目标容器不存在：" ++ target.container))
  let toPath ← store.writableObjectPath target.container target.key
  store.copyAt source fromPath toPath
  store.stat target

end PosixBlobStore

end FileService.Posix
