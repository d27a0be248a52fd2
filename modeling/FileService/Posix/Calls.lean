import FileService.Domain.Types
import FileService.Interaction.Trace

/-!
# The calls of the POSIX blob store

Every step that an operation of the store takes outside its own memory is one
call: system calls on files, the durability seam `IFileSync`, the counters and
random tokens that temporary names are made of, and the waits of the commit
batches. A loop that writes or copies a whole buffer is one call.
-/
namespace FileService.Posix
open FileService.Common FileService.Domain FileService.Interaction

inductive Errno where
  | enoent
  | eacces
  | eperm
  | enospc
  | edquot
  | other (code : Nat)
deriving DecidableEq, Repr

/-- A failed system call: `errno` and its text. -/
structure Failure where
  errno : Errno
  strerror : String := ""
deriving DecidableEq, Repr

abbrev Sys (α : Type) := Except Failure α

def Errno.kind : Errno → ErrorKind
  | .enoent => .notFound
  | .eacces => .permissionDenied
  | .eperm => .permissionDenied
  | .enospc => .unavailable
  | .edquot => .unavailable
  | .other _ => .internal

/-- The number of an error on Linux. -/
def Errno.code : Errno → Nat
  | .enoent => 2
  | .eacces => 13
  | .eperm => 1
  | .enospc => 28
  | .edquot => 122
  | .other code => code

def errFromErrno (what : String) (failure : Failure) : Error :=
  err failure.errno.kind (what ++ "：" ++ failure.strerror)

/-- An open file. -/
abbrev Handle := Nat

/-- One `tmp → final` renaming of a batch. -/
structure PendingRename where
  tmp : String
  finalPath : String
deriving DecidableEq, Repr

/-- An object of a batch: the renamings of its own file and of its sidecar. -/
structure BatchEntry where
  renames : List PendingRename
deriving DecidableEq, Repr

def BatchEntry.tmps (entry : BatchEntry) : List String := entry.renames.map PendingRename.tmp

/-- Where a writer stands in the batch it entered; `committed` holds the entries of the
batch when the writer has filled it and must commit it. -/
structure Seat where
  batch : Nat
  index : Nat
  committed : Option (List BatchEntry)

inductive Call where
  | fileExists (path : String)
  | ensureDir (path : String) (mode : Nat)
  | verifyResolvedWithinRoot (root path : String)
  | openExclusive (path : String)
  | openTruncated (path : String)
  | openRead (path : String)
  | writeAll (file : Handle) (data : Bytes)
  | copyFd (source target : Handle)
  | fstat (file : Handle)
  | pread (file : Handle) (offset count : Nat)
  | close (file : Handle)
  | rename (tmp finalPath : String)
  | unlink (path : String)
  | stat (path : String)
  | readFile (path : String)
  | dataSync (file : Handle)
  | fdatasync (file : Handle)
  | openDirectory (path : String)
  | fsync (file : Handle)
  | syncDirectory (directory : String)
  | syncFilesystem (directory : String)
  | nextTmpCounter
  | randomHex
  | nowEpochSeconds
  | enterBatch (renames : List PendingRename)
  | awaitFull (batch : Nat)
  | lockCommit
  | unlockCommit
  | finishBatch (batch : Nat) (results : List (Result Unit))
  | awaitDone (batch : Nat)

abbrev Call.Reply : Call → Type
  | .fileExists _ => Bool
  | .ensureDir .. => Result Unit
  | .verifyResolvedWithinRoot .. => Result Unit
  | .openExclusive _ => Sys Handle
  | .openTruncated _ => Sys Handle
  | .openRead _ => Sys Handle
  | .writeAll .. => Sys Unit
  | .copyFd .. => Bool
  | .fstat _ => Sys Nat
  | .pread .. => Sys Bytes
  | .close _ => Sys Unit
  | .rename .. => Sys Unit
  | .unlink _ => Sys Unit
  | .stat _ => Sys (Nat × Int)
  | .readFile _ => Result Bytes
  | .dataSync _ => Result Unit
  | .fdatasync _ => Sys Unit
  | .openDirectory _ => Sys Handle
  | .fsync _ => Sys Unit
  | .syncDirectory _ => Result Unit
  | .syncFilesystem _ => Result Unit
  | .nextTmpCounter => Nat
  | .randomHex => String
  | .nowEpochSeconds => Int
  | .enterBatch _ => Seat
  | .awaitFull _ => Option (List BatchEntry)
  | .lockCommit => Unit
  | .unlockCommit => Unit
  | .finishBatch .. => Unit
  | .awaitDone _ => List (Result Unit)

abbrev posix : Interface where
  Op := Call
  Reply := Call.Reply

/-- The program that makes one call. -/
abbrev perform (call : Call) : Program posix call.Reply := Program.perform (I := posix) call

/-- `path.substr(0, path.rfind('/'))`, or nothing where there is no slash. -/
def parentDirectory (path : String) : String :=
  String.ofList ((path.toList.reverse.dropWhile (· ≠ '/')).drop 1).reverse

example : parentDirectory "/data/c/u/1-t/f" = "/data/c/u/1-t" := by decide

def unlinkAll (paths : List String) : Program posix Unit :=
  paths.forM fun path => discard (perform (.unlink path))

end FileService.Posix
