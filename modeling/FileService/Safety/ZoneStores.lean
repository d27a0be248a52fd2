import FileService.Domain.World
import FileService.Interaction.Embedding

/-!
# What stores may do during a copy

The source object may be cut or removed while it is copied. A read gives bytes
of the object it opened, as far as they are still there, and at least one of
them if there are any. Any call may fail.
-/
namespace FileService.Safety
open FileService.Common FileService.Domain FileService.Infra FileService.Interaction

/-- A copy: its objects, its zones and the stores of the zones. -/
structure ZonePair where
  partition : String
  source : ObjectRef
  target : ObjectRef
  sourceZone : StorageZone
  targetZone : StorageZone
  store : StorageZone → StoreId

abbrev ZonePair.fromStore (z : ZonePair) : StoreId := z.store z.sourceZone

abbrev ZonePair.toStore (z : ZonePair) : StoreId := z.store z.targetZone

/-- The source object, the contents it has had during the call, and the target object. -/
structure CopyState where
  source : Option Bytes
  seen : List Bytes
  target : Option Bytes := none

namespace CopyState

def holding (w : CopyState) (b : Bytes) : CopyState := { w with source := some b, seen := b :: w.seen }

/-- The state in which a call starts. -/
def start (source target : Option Bytes) : CopyState where
  source
  seen := source.toList
  target

/-- The target holds the bytes that the source had at some moment of the call. -/
def Faithful (w : CopyState) : Prop := ∃ b ∈ w.seen, w.target = some b

end CopyState

/-- What others may do to the source between two calls. -/
inductive Drift (w : CopyState) : CopyState → Prop where
  | stays : Drift w w
  | cut {b b' : Bytes} : w.source = some b → b' <+: b → Drift w (w.holding b')
  | removed : Drift w { w with source := none }

section Answers
variable (z : ZonePair) (w : CopyState)

/-- A stat tells whether the object is there, and its size. -/
def Describes (stat : ObjectStat) : Prop :=
  stat.exists = w.source.isSome ∧ stat.size = (w.source.map List.length).getD 0

/-- A read opens the source, which may be cut to `b'` before the bytes are taken. -/
def ReadsSource (range : ByteRange) (chunk : Bytes) (w' : CopyState) : Prop :=
  ∃ b b', w.source = some b ∧ range.offset < b.length ∧ b' <+: b ∧
    chunk <+: (b'.drop range.offset).take range.length ∧
    (chunk = [] → b'.length ≤ range.offset) ∧ w' = w.holding b'

/-- A copy inside a store takes what is left of the source at its end. -/
def CopiesSource (w' : CopyState) : Prop :=
  ∃ b b', w.source = some b ∧ b' <+: b ∧ w' = { w.holding b' with target := some b' }

/-- The answers of the stores. -/
def Answers : (op : Port) → op.Reply → CopyState → Prop
  | .forPartition _ _, .error _, w' => w' = w
  | .forPartition _ zone, .ok store, w' => store = z.store zone ∧ w' = w
  | .blobs _ (.stat _), .error _, w' => w' = w
  | .blobs store (.stat ref), .ok stat, w' =>
    (store = z.fromStore ∧ ref = z.source → Describes w stat) ∧ w' = w
  | .blobs _ (.get ..), .error _, w' => w' = w
  | .blobs store (.get ref range), .ok chunk, w' =>
    store = z.fromStore ∧ ref = z.source ∧ ReadsSource w range chunk w'
  | .blobs _ (.copy ..), .error _, w' => w' = w
  | .blobs store (.copy source target), .ok _, w' =>
    store = z.toStore ∧ source = z.source ∧ target = z.target ∧ CopiesSource w w'
  | .blobs _ (.put ..), .error _, w' => w' = w
  | .blobs store (.put ref data _), .ok _, w' =>
    store = z.toStore ∧ ref = z.target ∧ w' = { w with target := some data }
  | _, _, w' => w' = w

/-- A call is answered after the source may have changed. -/
def copying : Effects ports CopyState :=
  fun w op r w' => ∃ w₁, Drift w w₁ ∧ Answers z w₁ op r w'

end Answers

/-! ## The in-memory store -/

section Memory
variable {z : ZonePair} {w : CopyState} {store : InMemoryBlobStore}

/-- The source object of a store. -/
def sourceIn (store : InMemoryBlobStore) (ref : ObjectRef) : Option Bytes :=
  (store.objectAt ref.container ref.key).map BlobObject.data

theorem memory_answers_stat (hsource : w.source = sourceIn store z.source) :
    Answers z w (.blobs z.fromStore (.stat z.source)) (store.stat z.source) w := by
  unfold InMemoryBlobStore.stat
  cases InMemoryBlobStore.validateRef z.source with
  | error e => rfl
  | ok _ =>
    cases hobject : store.objectAt z.source.container z.source.key with
    | none => exact ⟨fun _ => by simp [Describes, hsource, sourceIn, hobject], rfl⟩
    | some object =>
      refine ⟨fun _ => ?_, rfl⟩
      simp [Describes, hsource, sourceIn, hobject, InMemoryBlobStore.statOf]

theorem memory_answers_get {range : ByteRange} (hsource : w.source = sourceIn store z.source)
    (hrange : 0 < range.length) : ∃ w', w'.source = w.source ∧ w'.target = w.target ∧
      Answers z w (.blobs z.fromStore (.get z.source range)) (store.get z.source range) w' := by
  unfold InMemoryBlobStore.get
  cases InMemoryBlobStore.validateRef z.source with
  | error e => exact ⟨w, rfl, rfl, rfl⟩
  | ok _ =>
    cases hobject : store.objectAt z.source.container z.source.key with
    | none => exact ⟨w, rfl, rfl, rfl⟩
    | some object =>
      have hdata : w.source = some object.data := by simp [hsource, sourceIn, hobject]
      have hpart : range.isWholeObject = false := by
        simp [ByteRange.isWholeObject]
        omega
      by_cases hoffset : object.data.length ≤ range.offset
      · refine ⟨w, rfl, rfl, ?_⟩
        simp only [hpart, Bool.false_eq_true, if_false, if_pos hoffset]
        rfl
      · refine ⟨w.holding object.data, hdata.symm, rfl, ?_⟩
        simp only [hpart, Bool.false_eq_true, if_false, if_neg hoffset, if_neg hrange.ne']
        refine ⟨rfl, rfl, object.data, object.data, hdata, by omega, List.prefix_rfl,
          List.prefix_rfl, ?_, rfl⟩
        intro hempty
        have hlength := congrArg List.length hempty
        simp at hlength
        omega

theorem memory_answers_put {sha256Hex : Bytes → String} {now : Int} {data : Bytes}
    {options : PutOptions} : ∃ w',
      Answers z w (.blobs z.toStore (.put z.target data options))
        (store.put sha256Hex now z.target data options).1 w' ∧
      ((store.put sha256Hex now z.target data options).1 = .ok () →
        w'.target = sourceIn (store.put sha256Hex now z.target data options).2 z.target) := by
  unfold InMemoryBlobStore.put
  split
  · exact ⟨w, rfl, nofun⟩
  · split
    · exact ⟨w, rfl, nofun⟩
    · split
      · exact ⟨w, rfl, nofun⟩
      · refine ⟨_, ⟨rfl, rfl, rfl⟩, fun _ => ?_⟩
        simp [sourceIn, InMemoryBlobStore.objectAt, InMemoryBlobStore.write, Buckets.get?_put]

theorem memory_answers_copy {now : Int} (hsource : w.source = sourceIn store z.source) : ∃ w',
    Answers z w (.blobs z.toStore (.copy z.source z.target))
        (store.copy now z.source z.target).1 w' ∧
      ∀ stat, (store.copy now z.source z.target).1 = .ok stat →
        w'.target = sourceIn (store.copy now z.source z.target).2 z.target := by
  unfold InMemoryBlobStore.copy
  split
  · exact ⟨w, rfl, nofun⟩
  · exact ⟨w, rfl, nofun⟩
  · cases hobject : store.objectAt z.source.container z.source.key with
    | none => exact ⟨w, rfl, nofun⟩
    | some object =>
      have hdata : w.source = some object.data := by simp [hsource, sourceIn, hobject]
      dsimp only
      split
      · exact ⟨w, rfl, nofun⟩
      · refine ⟨_, ⟨rfl, rfl, rfl, _, _, hdata, List.prefix_rfl, rfl⟩, fun _ _ => ?_⟩
        simp [sourceIn, InMemoryBlobStore.objectAt, InMemoryBlobStore.write, Buckets.get?_put]

end Memory

/-! ## The loop of the POSIX store -/

section Posix

/-- `kIoBufferBytes` -/
def ioBufferBytes : Nat := 64 * 1024

/-- The loop of `PosixBlobStore::get`. The list has the content of the file at each `pread`. -/
def preadLoop (offset count : Nat) : List Bytes → Bytes → Bytes
  | [], done => done
  | content :: later, done =>
    if count ≤ done.length then done
    else
      let got := (content.drop (offset + done.length)).take (min ioBufferBytes (count - done.length))
      if got.isEmpty then done else preadLoop offset count later (done ++ got)

variable {z : ZonePair} {w : CopyState} {b first done : Bytes} {contents later : List Bytes}
variable {offset count : Nat}

theorem append_extends {whole got : Bytes} (h : done <+: whole) (hgot : got <+: whole.drop done.length) :
    done ++ got <+: whole := by
  obtain ⟨rest, rfl⟩ := h
  rw [List.drop_left] at hgot
  exact (List.prefix_append_right_inj done).mpr hgot

/-- The loop reads on from what it has, as long as the file is only cut. -/
theorem preadLoop_prefix (hcontents : ∀ content ∈ contents, content <+: b)
    (hdone : done <+: b.drop offset) (hcount : done.length ≤ count) :
    preadLoop offset count contents done <+: (b.drop offset).take count := by
  have hstop : done <+: (b.drop offset).take count := List.prefix_take_iff.mpr ⟨hdone, hcount⟩
  induction contents generalizing done with
  | nil => exact hstop
  | cons content later ih =>
    rw [List.forall_mem_cons] at hcontents
    unfold preadLoop
    by_cases hfull : count ≤ done.length
    · rwa [if_pos hfull]
    rw [if_neg hfull]
    dsimp only
    generalize hgot : (content.drop (offset + done.length)).take
      (min ioBufferBytes (count - done.length)) = got
    by_cases hempty : got.isEmpty = true
    · rwa [if_pos hempty]
    rw [if_neg hempty]
    have hprefix : got <+: (b.drop offset).drop done.length := by
      rw [← hgot, List.drop_drop]
      exact (List.take_prefix _ _).trans (hcontents.1.drop _)
    have hlength : (done ++ got).length ≤ count := by
      rw [← hgot, List.length_append, List.length_take]
      omega
    have hnext := append_extends hdone hprefix
    exact ih hcontents.2 hnext hlength (List.prefix_take_iff.mpr ⟨hnext, hlength⟩)

theorem preadLoop_extends : done <+: preadLoop offset count contents done := by
  induction contents generalizing done with
  | nil => exact List.prefix_rfl
  | cons content later ih =>
    unfold preadLoop
    dsimp only
    split_ifs
    · exact List.prefix_rfl
    · exact List.prefix_rfl
    · exact (List.prefix_append _ _).trans ih

theorem preadLoop_ne_nil (hcount : 0 < count) (hfirst : offset < first.length) :
    preadLoop offset count (first :: later) [] ≠ [] := by
  intro hempty
  unfold preadLoop at hempty
  rw [List.length_nil, if_neg (by omega)] at hempty
  dsimp only at hempty
  generalize hgot : (first.drop (offset + 0)).take (min ioBufferBytes (count - 0)) = got at hempty
  have hlength : 0 < got.length := by
    rw [← hgot, List.length_take, List.length_drop, ioBufferBytes]
    omega
  have hsome : ¬got.isEmpty = true := by
    rw [List.isEmpty_iff]
    exact List.ne_nil_of_length_pos hlength
  rw [if_neg hsome] at hempty
  have hextends : [] ++ got <+: preadLoop offset count later ([] ++ got) := preadLoop_extends
  rw [hempty] at hextends
  exact List.ne_nil_of_length_pos hlength (List.prefix_nil.mp hextends)

theorem preadLoop_of_cut (hfirst : first.length ≤ offset) :
    preadLoop offset count (first :: later) [] = [] := by
  unfold preadLoop
  simp [List.drop_eq_nil_of_le hfirst]

/-- What the loop returns is an answer that a store may give. -/
theorem posix_answers_get {range : ByteRange} (hsource : w.source = some b)
    (hoffset : range.offset < b.length) (hlength : 0 < range.length)
    (hcontents : ∀ content ∈ first :: later, content <+: b) : ∃ w',
      Answers z w (.blobs z.fromStore (.get z.source range))
        (.ok (preadLoop range.offset (min range.length (b.length - range.offset)) (first :: later) []))
        w' := by
  by_cases hcut : first.length ≤ range.offset
  · rw [preadLoop_of_cut hcut]
    exact ⟨_, rfl, rfl, b, first, hsource, hoffset, hcontents first List.mem_cons_self,
      List.nil_prefix, fun _ => hcut, rfl⟩
  · have hprefix : preadLoop range.offset (min range.length (b.length - range.offset))
        (first :: later) [] <+:
          (b.drop range.offset).take (min range.length (b.length - range.offset)) :=
      preadLoop_prefix hcontents List.nil_prefix (by simp)
    refine ⟨_, rfl, rfl, b, b, hsource, hoffset, List.prefix_rfl, ?_, ?_, rfl⟩
    · exact hprefix.trans (List.take_prefix_take_left (min_le_left _ _))
    · intro hempty
      exact absurd hempty (preadLoop_ne_nil (by omega) (by omega))

end Posix

end FileService.Safety
