import FileService.Interaction.Execution
import FileService.Posix.Calls
import FileService.Posix.BlobStore

/-!
# Files

Names lead to files, and open files have an offset of their own. A call on
files takes effect in one step; it may fail in every state, and a failed write
leaves a part of its bytes.
-/
namespace FileService.Posix
open FileService.Common FileService.Domain FileService.Interaction

/-- Every name leads to a file of its own; open files may have no name any more. -/
structure FileSystem where
  names : String → Option Nat := fun _ => none
  data : Nat → Bytes := fun _ => []
  next : Nat := 0
  handles : Handle → Option (Nat × Nat) := fun _ => none
  nextHandle : Handle := 0
  named : ∀ {p i}, names p = some i → i < next := by simp
  single : ∀ {p q i}, names p = some i → names q = some i → p = q := by simp
  opened : ∀ {h i offset}, handles h = some (i, offset) → i < next ∧ h < nextHandle := by simp

namespace FileSystem
variable (fs : FileSystem)

/-- The bytes that a name leads to. -/
def contentAt (path : String) : Option Bytes := (fs.names path).map fs.data

/-- The file that an open file refers to. -/
def fileOf (h : Handle) : Option Nat := (fs.handles h).map Prod.fst

/-- Create a file and open it. -/
def create (path : String) : FileSystem where
  names := Function.update fs.names path (some fs.next)
  data := Function.update fs.data fs.next []
  next := fs.next + 1
  handles := Function.update fs.handles fs.nextHandle (some (fs.next, 0))
  nextHandle := fs.nextHandle + 1
  named := by
    intro p i hp
    by_cases h : p = path
    · subst h
      rw [Function.update_self, Option.some.injEq] at hp
      exact hp ▸ Nat.lt_succ_self fs.next
    · rw [Function.update_of_ne h] at hp
      exact Nat.lt_succ_of_lt (fs.named hp)
  single := by
    intro p q i hp hq
    by_cases h : p = path <;> by_cases h' : q = path
    · rw [h, h']
    · subst h
      rw [Function.update_self, Option.some.injEq] at hp
      rw [Function.update_of_ne h', ← hp] at hq
      exact absurd (fs.named hq) (lt_irrefl _)
    · subst h'
      rw [Function.update_self, Option.some.injEq] at hq
      rw [Function.update_of_ne h, ← hq] at hp
      exact absurd (fs.named hp) (lt_irrefl _)
    · rw [Function.update_of_ne h] at hp
      rw [Function.update_of_ne h'] at hq
      exact fs.single hp hq
  opened := by
    intro h i offset hh
    by_cases hnew : h = fs.nextHandle
    · subst hnew
      rw [Function.update_self, Option.some.injEq, Prod.mk.injEq] at hh
      exact ⟨hh.1 ▸ Nat.lt_succ_self fs.next, Nat.lt_succ_self fs.nextHandle⟩
    · rw [Function.update_of_ne hnew] at hh
      exact ⟨Nat.lt_succ_of_lt (fs.opened hh).1, Nat.lt_succ_of_lt (fs.opened hh).2⟩

/-- Open a file that exists. -/
def reopen (i : Nat) (hi : i < fs.next) : FileSystem :=
  { fs with
    handles := Function.update fs.handles fs.nextHandle (some (i, 0))
    nextHandle := fs.nextHandle + 1
    opened := by
      intro h j offset hh
      by_cases hnew : h = fs.nextHandle
      · subst hnew
        rw [Function.update_self, Option.some.injEq, Prod.mk.injEq] at hh
        exact ⟨hh.1 ▸ hi, Nat.lt_succ_self fs.nextHandle⟩
      · rw [Function.update_of_ne hnew] at hh
        exact ⟨(fs.opened hh).1, Nat.lt_succ_of_lt (fs.opened hh).2⟩ }

/-- Open a directory. -/
def openDirectory : FileSystem :=
  { fs with
    nextHandle := fs.nextHandle + 1
    opened := fun hh => ⟨(fs.opened hh).1, Nat.lt_succ_of_lt (fs.opened hh).2⟩ }

def setData (i : Nat) (bytes : Bytes) : FileSystem :=
  { fs with data := Function.update fs.data i bytes }

/-- `O_TRUNC`: an existing file loses its bytes. -/
def openTruncated (path : String) : FileSystem :=
  match h : fs.names path with
  | some i => (fs.setData i []).reopen i (fs.named h)
  | none => fs.create path

/-- The bytes of a file after a write at an offset; a gap is filled with zeros. -/
def overwrite (old : Bytes) (offset : Nat) (bytes : Bytes) : Bytes :=
  old.take offset ++ List.replicate (offset - old.length) 0 ++ bytes ++
    old.drop (offset + bytes.length)

def write (h : Handle) (bytes : Bytes) : FileSystem :=
  match hh : fs.handles h with
  | none => fs
  | some (i, offset) =>
    { fs.setData i (overwrite (fs.data i) offset bytes) with
      handles := Function.update fs.handles h (some (i, offset + bytes.length))
      opened := by
        intro h' j offset' hh'
        by_cases hsame : h' = h
        · subst hsame
          simp only [Function.update_self, Option.some.injEq, Prod.mk.injEq] at hh'
          exact hh'.1 ▸ fs.opened hh
        · rw [Function.update_of_ne hsame] at hh'
          exact fs.opened hh' }

/-- The bytes of an open file become these. -/
def refill (h : Handle) (bytes : Bytes) : FileSystem :=
  match fs.fileOf h with
  | none => fs
  | some i => fs.setData i bytes

def close (h : Handle) : FileSystem :=
  { fs with
    handles := Function.update fs.handles h none
    opened := by
      intro h' i offset hh
      by_cases hsame : h' = h
      · subst hsame
        simp at hh
      · rw [Function.update_of_ne hsame] at hh
        exact fs.opened hh }

def unlink (path : String) : FileSystem :=
  { fs with
    names := Function.update fs.names path none
    named := by
      intro p i hp
      by_cases h : p = path
      · subst h
        simp at hp
      · rw [Function.update_of_ne h] at hp
        exact fs.named hp
    single := by
      intro p q i hp hq
      by_cases h : p = path
      · subst h
        simp at hp
      by_cases h' : q = path
      · subst h'
        simp at hq
      rw [Function.update_of_ne h] at hp
      rw [Function.update_of_ne h'] at hq
      exact fs.single hp hq }

/-- The target loses its file to the one that is renamed. -/
def rename (tmp path : String) : FileSystem :=
  if hsame : tmp = path then fs
  else
    { fs with
      names := Function.update (Function.update fs.names path (fs.names tmp)) tmp none
      named := by
        intro p i hp
        by_cases h : p = tmp
        · subst h
          simp at hp
        rw [Function.update_of_ne h] at hp
        by_cases h' : p = path
        · subst h'
          rw [Function.update_self] at hp
          exact fs.named hp
        · rw [Function.update_of_ne h'] at hp
          exact fs.named hp
      single := by
        intro p q i hp hq
        by_cases h : p = tmp
        · subst h
          simp at hp
        by_cases h' : q = tmp
        · subst h'
          simp at hq
        rw [Function.update_of_ne h] at hp
        rw [Function.update_of_ne h'] at hq
        by_cases hpath : p = path <;> by_cases hpath' : q = path
        · rw [hpath, hpath']
        · subst hpath
          rw [Function.update_self] at hp
          rw [Function.update_of_ne hpath'] at hq
          exact absurd (fs.single hp hq).symm h'
        · subst hpath'
          rw [Function.update_self] at hq
          rw [Function.update_of_ne hpath] at hp
          exact absurd (fs.single hp hq) h
        · rw [Function.update_of_ne hpath] at hp
          rw [Function.update_of_ne hpath'] at hq
          exact fs.single hp hq }

section Frames
variable {fs} {p path tmp : String} {h h' : Handle} {bytes : Bytes} {i : Nat}

/-- The open file is none of the file that the name leads to. -/
def Elsewhere (fs : FileSystem) (h : Handle) (p : String) : Prop :=
  ∀ i, fs.fileOf h = some i → fs.names p ≠ some i

theorem contentAt_eq_some (hp : fs.names p = some i) : fs.contentAt p = some (fs.data i) := by
  simp [contentAt, hp]

theorem contentAt_eq_none : fs.contentAt p = none ↔ fs.names p = none := by
  simp [contentAt]

theorem names_create_of_ne (hp : p ≠ path) : (fs.create path).names p = fs.names p := by
  simp [create, hp]

theorem contentAt_create_of_ne (hp : p ≠ path) :
    (fs.create path).contentAt p = fs.contentAt p := by
  unfold contentAt
  rw [names_create_of_ne hp]
  cases hi : fs.names p with
  | none => rfl
  | some i => simp [create, (fs.named hi).ne]

theorem elsewhere_create_of_ne (hp : p ≠ path) :
    (fs.create path).Elsewhere fs.nextHandle p := by
  intro i hi hname
  rw [names_create_of_ne hp] at hname
  have hnew : fs.next = i := by simpa [fileOf, create] using hi
  exact absurd (fs.named hname) (by omega)

@[simp] theorem names_write : (fs.write h bytes).names = fs.names := by
  unfold write
  split <;> rfl

@[simp] theorem fileOf_write : (fs.write h bytes).fileOf h' = fs.fileOf h' := by
  unfold write
  split
  · rfl
  · rename_i i offset hh
    by_cases hsame : h' = h
    · subst hsame
      simp [fileOf, hh]
    · simp [fileOf, hsame]

theorem contentAt_write (hh : fs.Elsewhere h p) : (fs.write h bytes).contentAt p = fs.contentAt p := by
  unfold contentAt
  rw [names_write]
  cases hi : fs.names p with
  | none => rfl
  | some i =>
    unfold write
    split
    · rfl
    · rename_i j offset hj
      have hne : i ≠ j := by
        rintro rfl
        exact hh i (by simp [fileOf, hj]) hi
      simp [setData, hne]

theorem Elsewhere.write (hh : fs.Elsewhere h p) : (fs.write h bytes).Elsewhere h p := by
  simpa [Elsewhere] using hh

@[simp] theorem contentAt_close : (fs.close h).contentAt p = fs.contentAt p := rfl

theorem contentAt_unlink_of_ne (hp : p ≠ path) :
    (fs.unlink path).contentAt p = fs.contentAt p := by
  simp [contentAt, unlink, hp]

theorem names_rename_of_ne (htmp : p ≠ tmp) (hpath : p ≠ path) :
    (fs.rename tmp path).names p = fs.names p := by
  unfold rename
  split <;> simp [htmp, hpath]

theorem data_rename : (fs.rename tmp path).data = fs.data := by
  unfold rename
  split <;> rfl

theorem contentAt_rename_of_ne (htmp : p ≠ tmp) (hpath : p ≠ path) :
    (fs.rename tmp path).contentAt p = fs.contentAt p := by
  unfold contentAt
  rw [names_rename_of_ne htmp hpath, data_rename]

end Frames

end FileSystem

/-- What a call on files may do and reply. Calls on directories, clocks and random sources
leave the files alone. -/
def FileSystem.Does (fs : FileSystem) : (op : Call) → op.Reply → FileSystem → Prop
  | .openExclusive path, .ok h, fs' =>
    fs.names path = none ∧ h = fs.nextHandle ∧ fs' = fs.create path
  | .openTruncated path, .ok h, fs' => h = fs.nextHandle ∧ fs' = fs.openTruncated path
  | .openRead path, .ok h, fs' =>
    h = fs.nextHandle ∧ ∃ i, ∃ hi : fs.names path = some i, fs' = fs.reopen i (fs.named hi)
  | .openDirectory _, .ok h, fs' => h = fs.nextHandle ∧ fs' = fs.openDirectory
  | .writeAll h bytes, .ok _, fs' => (fs.handles h).isSome ∧ fs' = fs.write h bytes
  | .writeAll h bytes, .error _, fs' => ∃ n, fs' = fs.write h (bytes.take n)
  | .copyFd source target, copied, fs' =>
    ∃ bytes, (copied = true → (fs.fileOf source).map fs.data = some bytes) ∧
      fs' = fs.refill target bytes
  | .fstat h, .ok size, fs' => (fs.fileOf h).map (fun i => (fs.data i).length) = some size ∧ fs' = fs
  | .pread h offset count, .ok bytes, fs' =>
    (fs.fileOf h).map (fun i => ((fs.data i).drop offset).take count) = some bytes ∧ fs' = fs
  | .close h, _, fs' => fs' = fs.close h
  | .rename tmp path, .ok _, fs' => (fs.names tmp).isSome ∧ fs' = fs.rename tmp path
  | .unlink path, .ok _, fs' => (fs.names path).isSome ∧ fs' = fs.unlink path
  | .unlink path, .error failure, fs' =>
    (failure.errno = .enoent → fs.names path = none) ∧ fs' = fs
  | .stat path, .ok (size, _), fs' =>
    (fs.contentAt path).map List.length = some size ∧ fs' = fs
  | .readFile path, .ok bytes, fs' => fs.contentAt path = some bytes ∧ fs' = fs
  | _, _, fs' => fs' = fs

end FileService.Posix

/-!
## One operation on the files

The files as one operation of the store finds and leaves them. The writers it
shares a batch with write other objects; the batch is committed by the operation
itself or, while it waits, by another one. The calls on files are recorded,
whoever makes them.
-/
namespace FileService.Posix
open FileService.Common FileService.Domain FileService.Interaction

/-- The files, the place taken in a batch, and the calls so far. -/
structure Session where
  files : FileSystem
  seat : Option (Nat × List PendingRename) := none
  calls : Trace posix := []

def PendingRename.paths (rename : PendingRename) : List String := [rename.tmp, rename.finalPath]

/-- The entries have that of the session at its place, and the others are about other files. -/
def Session.InBatch (s : Session) (entries : List BatchEntry) : Prop :=
  ∃ index renames, s.seat = some (index, renames) ∧ entries[index]? = some ⟨renames⟩ ∧
    ∀ (j : Nat) (other : BatchEntry), j ≠ index → entries[j]? = some other →
      ∀ mine ∈ renames, ∀ rename ∈ other.renames, ∀ path ∈ rename.paths, path ∉ mine.paths

/-- A call on files, recorded. -/
def FileActs : Effects posix Session := fun s op r s' =>
  s.files.Does op r s'.files ∧ s'.seat = s.seat ∧ s'.calls = s.calls ++ [⟨op, r⟩]

/-- A call of the operation; while it waits for its batch another writer commits it. -/
def Acts (syncDirAfterBatch : Bool) : Effects posix Session := fun s op r s' =>
  match op, r with
  | .enterBatch renames, seat =>
    s' = { s with seat := some (seat.index, renames) } ∧
      ∀ entries, seat.committed = some entries → s'.InBatch entries
  | .awaitFull _, open? => s' = s ∧ ∀ entries, open? = some entries → s.InBatch entries
  | .awaitDone _, results => ∃ entries t, s.InBatch entries ∧
      (commitBatch syncDirAfterBatch entries).Performs FileActs s t results s'
  | op, r => FileActs s op r s'

/-- The calls that are not about batches. -/
def isFileCall : Call → Bool
  | .enterBatch _ => false
  | .awaitFull _ => false
  | .awaitDone _ => false
  | _ => true

theorem acts_of_isFileCall {syncDir : Bool} {s s' : Session} {op : Call} {r : op.Reply}
    (hop : isFileCall op = true) : Acts syncDir s op r s' ↔ FileActs s op r s' := by
  cases op <;> first | rfl | cases hop

/-- The calls that leave the files alone. -/
def isQuiet : Call → Bool
  | .fileExists _ => true
  | .ensureDir .. => true
  | .verifyResolvedWithinRoot .. => true
  | .dataSync _ => true
  | .fdatasync _ => true
  | .fsync _ => true
  | .syncDirectory _ => true
  | .syncFilesystem _ => true
  | .nextTmpCounter => true
  | .randomHex => true
  | .nowEpochSeconds => true
  | .lockCommit => true
  | .unlockCommit => true
  | .finishBatch .. => true
  | _ => false

theorem does_iff_of_isQuiet {fs fs' : FileSystem} {op : Call} {r : op.Reply}
    (hop : isQuiet op = true) : fs.Does op r fs' ↔ fs' = fs := by
  cases op <;> first | rfl | cases hop

theorem does_of_isQuiet {fs fs' : FileSystem} {op : Call} {r : op.Reply} (hop : isQuiet op = true)
    (h : fs.Does op r fs') : fs' = fs :=
  (does_iff_of_isQuiet hop).mp h

theorem isFileCall_of_isQuiet {op : Call} (hop : isQuiet op = true) : isFileCall op = true := by
  cases op <;> first | rfl | cases hop

theorem fileActs_of_isQuiet {syncDir : Bool} {s s' : Session} {op : Call} {r : op.Reply}
    (hop : isQuiet op = true) (h : Acts syncDir s op r s') :
    s'.files = s.files ∧ s'.seat = s.seat ∧ s'.calls = s.calls ++ [⟨op, r⟩] :=
  have hacts := (acts_of_isFileCall (isFileCall_of_isQuiet hop)).mp h
  ⟨does_of_isQuiet hop hacts.1, hacts.2⟩

end FileService.Posix
