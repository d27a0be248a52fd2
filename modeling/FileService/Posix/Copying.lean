import FileService.Posix.PutAtomicity

/-!
# What a copy leaves

A copy reads its source through one open file and writes its target through
another. Whatever fails, the names other than the target, its temporary file and
its sidecar keep their bytes; the target keeps its own until the copy is
published.
-/
namespace FileService.Posix
open FileService.Common FileService.Domain FileService.Interaction

/-! ## Names that are left alone -/

section Sealed
variable {path target : String} {content : Option Bytes} {fs fs' : FileSystem} {op : Call}
variable {r : op.Reply} {h : Handle}

/-- The calls that do not name the path. -/
def Sparing (path : String) : Call → Prop
  | .openExclusive target => target ≠ path
  | .openTruncated target => target ≠ path
  | .openRead target => target ≠ path
  | .rename source target => source ≠ path ∧ target ≠ path
  | .unlink target => target ≠ path
  | call => isFileCall call = true

/-- The path has this content, and nobody has its file open. -/
structure Sealed (path : String) (content : Option Bytes) (fs : FileSystem) : Prop where
  content : fs.contentAt path = content
  closed : ∀ h, fs.Elsewhere h path

namespace FileSystem

theorem fileOf_create : (fs.create target).fileOf h =
    if h = fs.nextHandle then some fs.next else fs.fileOf h := by
  by_cases hnew : h = fs.nextHandle <;> simp [fileOf, create, hnew]

theorem contentAt_openTruncated_of_ne (hne : path ≠ target) :
    (fs.openTruncated target).contentAt path = fs.contentAt path := by
  cases hi : fs.names target with
  | none =>
    rw [openTruncated_of_none hi]
    exact contentAt_create_of_ne hne
  | some i =>
    rw [openTruncated_of_some hi]
    unfold contentAt
    change (fs.names path).map (fs.setData i []).data = _
    cases hj : fs.names path with
    | none => rfl
    | some j =>
      have hji : j ≠ i := by
        rintro rfl
        exact hne (fs.single hj hi)
      simp [setData, hji]

end FileSystem

theorem Sealed.create (hs : Sealed path content fs) (hne : target ≠ path) :
    Sealed path content (fs.create target) := by
  constructor
  · rw [FileSystem.contentAt_create_of_ne hne.symm]
    exact hs.content
  · intro h i hi
    rw [FileSystem.fileOf_create] at hi
    rw [FileSystem.names_create_of_ne hne.symm]
    split_ifs at hi with hnew
    · intro hname
      obtain rfl := Option.some.inj hi
      exact absurd (fs.named hname) (lt_irrefl _)
    · exact hs.closed h i hi

theorem Sealed.reopen {j : Nat} {hj : j < fs.next} (hs : Sealed path content fs)
    (hne : fs.names path ≠ some j) : Sealed path content (fs.reopen j hj) := by
  constructor
  · exact hs.content
  · intro h i hi
    rw [fileOf_reopen] at hi
    split_ifs at hi with hnew
    · obtain rfl := Option.some.inj hi
      exact hne
    · exact hs.closed h i hi

theorem Sealed.setData {j : Nat} {bytes : Bytes} (hs : Sealed path content fs)
    (hne : fs.names path ≠ some j) : Sealed path content (fs.setData j bytes) := by
  constructor
  · rw [← hs.content]
    unfold FileSystem.contentAt
    rw [FileSystem.names_setData]
    cases hi : fs.names path with
    | none => rfl
    | some i =>
      have hij : i ≠ j := by
        rintro rfl
        exact hne hi
      simp [FileSystem.setData, hij]
  · exact hs.closed

theorem Sealed.openTruncated (hs : Sealed path content fs) (hne : target ≠ path) :
    Sealed path content (fs.openTruncated target) := by
  cases hi : fs.names target with
  | none =>
    rw [FileSystem.openTruncated_of_none hi]
    exact hs.create hne
  | some i =>
    have hother : fs.names path ≠ some i := fun hname => hne (fs.single hi hname)
    rw [FileSystem.openTruncated_of_some hi]
    exact (hs.setData hother).reopen hother

theorem Sealed.write {bytes : Bytes} (hs : Sealed path content fs) :
    Sealed path content (fs.write h bytes) :=
  ⟨(FileSystem.contentAt_write (hs.closed h)).trans hs.content, fun h' => by
    simpa [FileSystem.Elsewhere] using hs.closed h'⟩

theorem Sealed.refill {bytes : Bytes} (hs : Sealed path content fs) :
    Sealed path content (fs.refill h bytes) := by
  unfold FileSystem.refill
  cases hi : fs.fileOf h with
  | none => exact hs
  | some i => exact hs.setData (hs.closed h i hi)

theorem Sealed.close (hs : Sealed path content fs) : Sealed path content (fs.close h) := by
  constructor
  · exact hs.content
  · intro h' i hi
    rw [fileOf_close] at hi
    split_ifs at hi
    exact hs.closed h' i hi

theorem Sealed.unlink (hs : Sealed path content fs) (hne : target ≠ path) :
    Sealed path content (fs.unlink target) := by
  constructor
  · rw [FileSystem.contentAt_unlink_of_ne hne.symm]
    exact hs.content
  · intro h' i hi
    simpa [FileSystem.unlink, hne.symm] using hs.closed h' i hi

theorem Sealed.rename {tmp : String} (hs : Sealed path content fs) (htmp : tmp ≠ path)
    (hne : target ≠ path) : Sealed path content (fs.rename tmp target) := by
  constructor
  · rw [FileSystem.contentAt_rename_of_ne htmp.symm hne.symm]
    exact hs.content
  · intro h' i hi
    rw [FileSystem.names_rename_of_ne htmp.symm hne.symm]
    apply hs.closed h' i
    unfold FileSystem.rename at hi
    split at hi <;> exact hi

/-- A call that does not name the path leaves it alone. -/
theorem Sealed.does (hs : Sealed path content fs) (hop : Sparing path op)
    (hdoes : fs.Does op r fs') : Sealed path content fs' := by
  cases hquiet : isQuiet op with
  | true => exact does_of_isQuiet hquiet hdoes ▸ hs
  | false =>
    cases op with
    | openExclusive target =>
      cases r with
      | ok h => exact hdoes.2.2 ▸ hs.create hop
      | error failure => exact hdoes ▸ hs
    | openTruncated target =>
      cases r with
      | ok h => exact hdoes.2 ▸ hs.openTruncated hop
      | error failure => exact hdoes ▸ hs
    | openRead target =>
      cases r with
      | ok h =>
        obtain ⟨-, i, hi, rfl⟩ := hdoes
        exact hs.reopen fun hname => hop (fs.single hi hname)
      | error failure => exact hdoes ▸ hs
    | openDirectory target =>
      cases r with
      | ok h => exact hdoes.2 ▸ ⟨hs.content, hs.closed⟩
      | error failure => exact hdoes ▸ hs
    | writeAll h bytes =>
      cases r with
      | ok u => exact hdoes.2 ▸ hs.write
      | error failure =>
        obtain ⟨n, rfl⟩ := hdoes
        exact hs.write
    | copyFd source target =>
      obtain ⟨bytes, -, rfl⟩ := hdoes
      exact hs.refill
    | close h => exact (show fs' = fs.close h from hdoes) ▸ hs.close
    | rename source target =>
      cases r with
      | ok u => exact hdoes.2 ▸ hs.rename hop.1 hop.2
      | error failure => exact hdoes ▸ hs
    | unlink target =>
      cases r with
      | ok u => exact hdoes.2 ▸ hs.unlink hop
      | error failure => exact hdoes.2 ▸ hs
    | fstat h =>
      cases r with
      | ok size => exact hdoes.2 ▸ hs
      | error failure => exact hdoes ▸ hs
    | pread h offset count =>
      cases r with
      | ok bytes => exact hdoes.2 ▸ hs
      | error failure => exact hdoes ▸ hs
    | stat target =>
      cases r with
      | ok found => exact hdoes.2 ▸ hs
      | error failure => exact hdoes ▸ hs
    | readFile target =>
      cases r with
      | ok bytes => exact hdoes.2 ▸ hs
      | error e => exact hdoes ▸ hs
    | enterBatch renames => cases hop
    | awaitFull batch => cases hop
    | awaitDone batch => cases hop
    | _ => cases hquiet

end Sealed

/-! ## The bytes of a copy -/

section Bytes
variable {fs now : FileSystem} {path tmp : String} {bytes copied : Bytes} {input output : Handle}
variable {handles : List Handle} {store : PosixBlobStore}

/-- A copy has its source and its target open. -/
structure Opened (fs : FileSystem) (tmp : String) (bytes : Bytes) (input output : Handle)
    (now : FileSystem) : Prop where
  target : ∃ j, now.fileOf output = some j ∧ now.names tmp = some j
  source : (now.fileOf input).map now.data = some bytes
  others : ∀ p, p ≠ tmp → now.contentAt p = fs.contentAt p
  only : ∀ h, h ∉ [input, output] → now.fileOf h = none

/-- The bytes have been copied. -/
structure Written (fs : FileSystem) (tmp : String) (copied : Bytes) (handles : List Handle)
    (now : FileSystem) : Prop where
  content : now.contentAt tmp = some copied
  others : ∀ p, p ≠ tmp → now.contentAt p = fs.contentAt p
  only : ∀ h, h ∉ handles → now.fileOf h = none

theorem Opened.refill (h : Opened fs tmp bytes input output now) :
    Written fs tmp copied [input, output] (now.refill output copied) := by
  obtain ⟨j, hj, htmp⟩ := h.target
  have hrefill : now.refill output copied = now.setData j copied := by
    unfold FileSystem.refill
    rw [hj]
  rw [hrefill]
  constructor
  · simp [FileSystem.contentAt, FileSystem.setData, htmp]
  · intro p hp
    rw [← h.others p hp]
    unfold FileSystem.contentAt
    rw [FileSystem.names_setData]
    cases hi : now.names p with
    | none => rfl
    | some i =>
      have hij : i ≠ j := by
        rintro rfl
        exact hp (now.single hi htmp)
      simp [FileSystem.setData, hij]
  · exact h.only

theorem Written.close {file : Handle} (h : Written fs tmp copied (file :: handles) now) :
    Written fs tmp copied handles (now.close file) := by
  constructor
  · exact h.content
  · exact h.others
  · intro h' hh'
    rw [fileOf_close]
    split_ifs with hsame
    · rfl
    · apply h.only
      simp [hsame, hh']

/-- In place the target has been published. -/
def Begun (store : PosixBlobStore) (path : String) (s : Session) : Prop :=
  store.atomicWrite = false → Published path s.calls

theorem Begun.fileActs {s s' : Session} {op : Call} {r : op.Reply} (h : Begun store path s)
    (hacts : FileActs s op r s') : Begun store path s' :=
  fun hplace => published_fileActs hacts (h hplace)

/-- The bytes are flushed if they have to be; what goes on knows whether they were copied. -/
theorem ensures_dataSync {β : Type} {target : Handle} {ok sync : Bool} {P : Session → Prop}
    {Q : β → Session → Prop} {E : Error → Session → Prop} {f : Bool → Attempt β}
    (hP : ∀ s op r s', isQuiet op = true → P s → FileActs s op r s' → P s')
    (hf : ∀ flushed, Interaction.Action.Ensures FileActs
      (fun s => (flushed = true → ok = true) ∧ P s) (f flushed) Q E) :
    Interaction.Action.Ensures FileActs P
      (if (ok && sync) = true then do
        let synced ← Attempt.ask (.dataSync target)
        let flushed ← pure (Result.isOk synced)
        f flushed
      else do
        let flushed ← pure ok
        f flushed) Q E := by
  split_ifs with hsync
  · apply Interaction.Action.Ensures.bind (Q := fun _ => P)
    · apply Interaction.Action.ensures_call
      intro s r s' hs hacts
      exact hP s _ r s' rfl hs hacts
    · intro synced
      rw [pure_bind]
      apply (hf _).mono
      · intro s hs
        exact ⟨fun _ => (Bool.and_eq_true_iff.mp hsync).1, hs⟩
      · exact fun _ _ h => h
      · exact fun _ _ h => h
  · rw [pure_bind]
    apply (hf _).mono
    · intro s hs
      exact ⟨id, hs⟩
    · exact fun _ _ h => h
    · exact fun _ _ h => h

/-- The bytes are copied before both files are closed, whatever fails. -/
theorem ensures_copyBytes :
    Interaction.Action.Ensures FileActs
      (fun s => Opened fs tmp bytes input output s.files ∧ Begun store path s)
      (store.copyBytes input output)
      (fun r s => (∃ copied, Written fs tmp copied [] s.files ∧ (r.1 = true → copied = bytes)) ∧
        Begun store path s)
      fun _ _ => False := by
  unfold PosixBlobStore.copyBytes
  apply Interaction.Action.Ensures.bind
    (Q := fun _ s => Opened fs tmp bytes input output s.files ∧ Begun store path s)
  · apply Interaction.Action.ensures_call
    rintro s r s' ⟨hopened, hbegun⟩ hacts
    have hfiles : s'.files = s.files := by
      cases r with
      | ok size => exact hacts.1.2
      | error failure => exact hacts.1
    exact ⟨hfiles ▸ hopened, hbegun.fileActs hacts⟩
  intro size
  let Filled (handles : List Handle) (ok : Bool) (s : Session) : Prop :=
    (∃ copied, Written fs tmp copied handles s.files ∧ (ok = true → copied = bytes)) ∧
      Begun store path s
  apply Interaction.Action.Ensures.bind (Q := Filled [input, output])
  · apply Interaction.Action.ensures_call
    rintro s r s' ⟨hopened, hbegun⟩ hacts
    obtain ⟨copied, hcopied, hfiles⟩ := hacts.1
    refine ⟨⟨copied, hfiles ▸ hopened.refill, ?_⟩, hbegun.fileActs hacts⟩
    intro hok
    exact Option.some.inj ((hcopied hok).symm.trans hopened.source)
  intro ok
  have hquiet : ∀ s op r s', isQuiet op = true → Filled [input, output] ok s →
      FileActs s op r s' → Filled [input, output] ok s' := by
    rintro s op r s' hop ⟨hfilled, hbegun⟩ hacts
    exact ⟨does_of_isQuiet hop hacts.1 ▸ hfilled, hbegun.fileActs hacts⟩
  apply ensures_dataSync hquiet
  intro flushed
  have hclose : ∀ {handles} file, Interaction.Action.Ensures FileActs
      (fun s => (flushed = true → ok = true) ∧ Filled (file :: handles) ok s)
      (Attempt.ask (.close file)) (fun _ s => (flushed = true → ok = true) ∧ Filled handles ok s)
      fun _ _ => False := by
    intro handles file
    apply Interaction.Action.ensures_call
    rintro s r s' ⟨hflushed, ⟨copied, hwritten, hok⟩, hbegun⟩ hacts
    have hfiles : s'.files = s.files.close file := hacts.1
    exact ⟨hflushed, ⟨copied, hfiles ▸ hwritten.close, hok⟩, hbegun.fileActs hacts⟩
  apply Interaction.Action.Ensures.bind (hclose input)
  intro closedSource
  apply Interaction.Action.Ensures.bind (hclose output)
  intro closedTarget
  apply Interaction.Action.ensures_pure
  rintro s ⟨hflushed, ⟨copied, hwritten, hok⟩, hbegun⟩
  refine ⟨⟨copied, hwritten, ?_⟩, hbegun⟩
  intro hall
  exact hok (hflushed (Bool.and_eq_true_iff.mp (Bool.and_eq_true_iff.mp hall).1).1)

end Bytes

end FileService.Posix
