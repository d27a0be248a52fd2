import FileService.App.Copies
import FileService.Domain.Effects
import FileService.Domain.Schedule
import FileService.Interaction.Evaluation

/-!
# Copy requests with a bad entry

`CopyFiles` checks an entry when it comes to it, and copies the entries before.
So a request that is rejected has copied what stands before the bad entry.
-/
namespace FileService.Safety.CopyRequests
open FileService.Common FileService.Domain FileService.Interaction FileService.Infra
open FileService.App
open FileService.Interaction.Action (evaluate evaluate_bind_ok evaluate_bind_error)

/-! ## The objects that are written -/

/-- The world, with the objects that have been written or replaced. -/
structure Recording where
  world : World
  written : List (StoreId × ObjectRef) := []

/-- The object that a call has written, if it has. -/
def writtenObject : (op : Port) → op.Reply → List (StoreId × ObjectRef)
  | .blobs store (.put ref _ _), .ok _ => [(store, ref)]
  | .blobs store (.copy _ target), .ok _ => [(store, target)]
  | _, _ => []

/-- Every call has its effect on the world. -/
def answer (d : Deployment) : Answering ports Recording := fun op s =>
  let out := s.world.apply d "" op
  (out.1, { world := out.2, written := s.written ++ writtenObject op out.1 })

variable {d : Deployment} {s s₁ s₂ s₃ : Recording}

/-- Nothing has been written, and the data is as it was. -/
structure Untouched (s s₁ : Recording) : Prop where
  written : s₁.written = s.written
  data : World.SameData s.world s₁.world

theorem untouched_refl (s : Recording) : Untouched s s := ⟨rfl, World.SameData.refl _⟩

theorem Untouched.trans (h : Untouched s₁ s₂) (h' : Untouched s₂ s₃) : Untouched s₁ s₃ :=
  ⟨h'.written.trans h.written,
    { metadata := h'.data.metadata.trans h.data.metadata
      remote := h'.data.remote.trans h.data.remote
      locations := h'.data.locations.trans h.data.locations
      object := fun store ref => (h'.data.object store ref).trans (h.data.object store ref) }⟩

/-- What has been written stays written. -/
theorem written_extends {α : Type} (x : Domain.Action α) (s : Recording) :
    s.written <+: (evaluate (answer d) x s).2.written := by
  have hall : ∀ {α : Type} (p : Program ports α), p.Uses (fun _ => True) fun _ => True := by
    intro α p
    induction p with
    | ret a => trivial
    | call op next ih => exact ⟨trivial, ih⟩
  have hstep : ∀ (op : Port) (s : Recording), True → s.written <+: (answer d op s).2.written :=
    fun op s _ => List.prefix_append s.written _
  have htrans : ∀ {a b c : Recording}, a.written <+: b.written → b.written <+: c.written →
      a.written <+: c.written := fun h h' => h.trans h'
  exact (Program.evaluate_invariant (R := fun s s' => s.written <+: s'.written)
    (hall (ExceptT.run x)) (fun s => List.prefix_refl s.written) htrans hstep s).1

/-! ## Copies between zones -/

/-- The copy of an object finds what it needs: references that are complete, and in one store the
object itself, from store to store no more than the target takes. -/
def CanCopy (w : World) (fromStore toStore : StoreId) (source target : ObjectRef) : Prop :=
  target.container ≠ "" ∧ target.key ≠ "" ∧ source.container ≠ "" ∧ source.key ≠ "" ∧
    if fromStore = toStore then w.object fromStore source ≠ none
    else ∀ o, w.object fromStore source = some o →
      o.data.length ≤ InMemoryBlobStore.maxObjectBytes

section Calls
variable {α β : Type} {op : Port} {r : op.Reply}

theorem evaluate_ask {f : op.Reply → Domain.Action α} (h : answer d op s = (r, s₁)) :
    evaluate (answer d) (Domain.Action.ask op >>= f) s = evaluate (answer d) (f r) s₁ := by
  apply evaluate_bind_ok
  change (Except.ok (answer d op s).1, (answer d op s).2) = _
  rw [h]

theorem evaluate_ok (a : α) (f : α → Domain.Action β) :
    evaluate (answer d) (Domain.Action.tryResult (.ok a) >>= f) s = evaluate (answer d) (f a) s := rfl

theorem evaluate_error (e : Error) (f : α → Domain.Action β) :
    evaluate (answer d) (Domain.Action.tryResult (.error e) >>= f) s = (.error (.error e), s) := rfl

theorem answer_forPartition (q : String) (z : StorageZone) :
    answer d (.forPartition q z) s = (.ok (d.store q z), s) := by
  simp [answer, World.apply, writtenObject]

/-- The state after a call on a store, which may have written an object. -/
def afterBlobCall (s : Recording) (store : StoreId) (blobs : InMemoryBlobStore)
    (objects : List (StoreId × ObjectRef)) : Recording :=
  { world := { s.world with stores := Function.update s.world.stores store blobs }
    written := s.written ++ objects }

theorem untouched_of_blobCall {store : StoreId} {blobs : InMemoryBlobStore}
    (h : ∀ c k, blobs.objectAt c k = (s.world.stores store).objectAt c k) :
    Untouched s (afterBlobCall s store blobs []) :=
  ⟨List.append_nil _, World.sameData_of_store h⟩

end Calls

section Reading
variable {store : StoreId} {ref : ObjectRef} {o : BlobObject}

theorem validateRef_of_complete (hcontainer : ref.container ≠ "") (hkey : ref.key ≠ "") :
    InMemoryBlobStore.validateRef ref = .ok () := by
  rw [InMemoryBlobStore.validateRef, if_neg hcontainer, if_neg hkey]

/-- A read below the end of an object gives the bytes that it asks for. -/
theorem get_below (hvalid : InMemoryBlobStore.validateRef ref = .ok ())
    (hobject : s.world.object store ref = some o) {offset length : Nat} (hlength : 0 < length)
    (hoffset : offset < o.data.length) : (s.world.stores store).get ref { offset, length } =
      .ok ((o.data.drop offset).take length) := by
  have hwhole : ¬({ offset, length } : ByteRange).isWholeObject = true := by
    simp only [ByteRange.isWholeObject, Bool.and_eq_true, beq_iff_eq, not_and]
    omega
  have hfound : (s.world.stores store).objectAt ref.container ref.key = some o := hobject
  unfold InMemoryBlobStore.get
  rw [hvalid]
  simp only [hfound, if_neg hwhole, if_neg (not_le.mpr hoffset), if_neg hlength.ne']

/-- A read of a store leaves everything as it is. -/
theorem answer_get (range : ByteRange) : answer d (.blobs store (.get ref range)) s =
    ((s.world.stores store).get ref range, s) := by
  simp [answer, World.apply, World.blobCall, writtenObject]

theorem answer_stat : answer d (.blobs store (.stat ref)) s =
    ((s.world.stores store).stat ref, s) := by
  simp [answer, World.apply, World.blobCall, writtenObject]

theorem evaluate_readAll (hvalid : InMemoryBlobStore.validateRef ref = .ok ()) (rounds offset : Nat)
    (hobject : s.world.object store ref = some o) (hoffset : offset ≤ o.data.length)
    (hrounds : o.data.length < offset + rounds) :
    evaluate (answer d) (readAll store ref o.data.length rounds offset (o.data.take offset)) s =
      (.ok o.data, s) := by
  induction rounds generalizing offset with
  | zero => omega
  | succ rounds ih =>
    unfold readAll
    by_cases hend : o.data.length ≤ offset
    · rw [if_pos hend, List.take_of_length_le hend]
      rfl
    · rw [if_neg hend]
      have hpositive : 0 < min readChunkBytes (o.data.length - offset) := by
        unfold readChunkBytes
        omega
      generalize hwanted : min readChunkBytes (o.data.length - offset) = wanted at hpositive ⊢
      have hlength : ((o.data.drop offset).take wanted).length = wanted := by
        rw [List.length_take, List.length_drop]
        omega
      have hsome : ¬((o.data.drop offset).take wanted).isEmpty = true := by
        rw [List.isEmpty_iff]
        intro hnil
        rw [hnil] at hlength
        exact hpositive.ne hlength
      rw [evaluate_ask (answer_get _), get_below hvalid hobject hpositive (not_le.mp hend),
        evaluate_ok, hlength, if_neg (lt_irrefl wanted), if_neg hsome, ← List.take_add]
      exact ih _ (by omega) (by omega)

end Reading

section Copy
variable {source target : ObjectRef}

/-- How a copy between zones can come out: it has written its target, or it has failed and
written nothing. -/
inductive CopyOutcome (d : Deployment) (s : Recording) (able : Prop) (toStore : StoreId)
    (target : ObjectRef) (out : Except Exit ObjectStat × Recording) : Prop
  | written (hable : able) (stat : ObjectStat) (hout : out.1 = .ok stat)
      (hwritten : (toStore, target) ∈ out.2.written)
  | failed (hable : ¬able) (e : Error) (hout : out.1 = .error (.error e))
      (huntouched : Untouched s out.2)

theorem validateRef_ok_iff (ref : ObjectRef) :
    InMemoryBlobStore.validateRef ref = .ok () ↔ ref.container ≠ "" ∧ ref.key ≠ "" :=
  ⟨InMemoryBlobStore.validateRef_ok, fun h => validateRef_of_complete h.1 h.2⟩

theorem incomplete_of_error {ref : ObjectRef} {e : Error}
    (h : InMemoryBlobStore.validateRef ref = .error e) :
    ¬(ref.container ≠ "" ∧ ref.key ≠ "") := by
  intro hcomplete
  rw [(validateRef_ok_iff ref).mpr hcomplete] at h
  cases h

theorem exists_ensured (store : InMemoryBlobStore) {container : String} (h : container ≠ "") :
    ∃ bucket, (store.ensureContainer container).2.containers[container]? = some bucket := by
  unfold InMemoryBlobStore.ensureContainer
  rw [if_neg h]
  cases hbucket : store.containers[container]? with
  | none => exact ⟨∅, by simp [Buckets.ensure, hbucket]⟩
  | some bucket => exact ⟨bucket, by simp [Buckets.ensure, hbucket]⟩

/-- With the container there, a copy needs complete references and its source. -/
theorem copy_succeeds_iff (store : InMemoryBlobStore) (now : Int) (source : ObjectRef)
    {target : ObjectRef}
    (hcontainer : ∃ bucket, store.containers[target.container]? = some bucket) :
    (∃ e, store.copy now source target = (.error e, store)) ∧
        ¬((source.container ≠ "" ∧ source.key ≠ "") ∧ (target.container ≠ "" ∧ target.key ≠ "") ∧
          store.objectAt source.container source.key ≠ none) ∨
      (∃ stat, (store.copy now source target).1 = .ok stat) ∧
        (source.container ≠ "" ∧ source.key ≠ "") ∧ (target.container ≠ "" ∧ target.key ≠ "") ∧
          store.objectAt source.container source.key ≠ none := by
  obtain ⟨bucket, hbucket⟩ := hcontainer
  unfold InMemoryBlobStore.copy
  split
  · exact .inl ⟨⟨_, rfl⟩, fun h => incomplete_of_error ‹_› h.1⟩
  · exact .inl ⟨⟨_, rfl⟩, fun h => incomplete_of_error ‹_› h.2.1⟩
  · rename_i hsource htarget
    split
    · rename_i hnone
      exact .inl ⟨⟨_, rfl⟩, fun h => h.2.2 hnone⟩
    · rename_i o ho
      split
      · rename_i hmissing
        rw [hbucket] at hmissing
        cases hmissing
      · refine .inr ⟨⟨_, rfl⟩, (validateRef_ok_iff source).mp hsource,
          (validateRef_ok_iff target).mp htarget, ?_⟩
        rw [ho]
        exact Option.some_ne_none o

/-- With the container there, a put without demands needs a complete reference and bytes that are
not too many. -/
theorem put_succeeds_iff (sha256Hex : Bytes → String) (store : InMemoryBlobStore) (now : Int)
    {target : ObjectRef} (data : Bytes)
    (hcontainer : ∃ bucket, store.containers[target.container]? = some bucket) :
    (∃ e, store.put sha256Hex now target data {} = (.error e, store)) ∧
        ¬((target.container ≠ "" ∧ target.key ≠ "") ∧
          data.length ≤ InMemoryBlobStore.maxObjectBytes) ∨
      (store.put sha256Hex now target data {}).1 = .ok () ∧
        (target.container ≠ "" ∧ target.key ≠ "") ∧
          data.length ≤ InMemoryBlobStore.maxObjectBytes := by
  obtain ⟨bucket, hbucket⟩ := hcontainer
  have hcheck : InMemoryBlobStore.checkPut sha256Hex data {} =
      if InMemoryBlobStore.maxObjectBytes < data.length then
        .error (err .invalidArgument ("流长度 " ++ toString data.length ++ " 超过上限 " ++
          toString InMemoryBlobStore.maxObjectBytes))
      else .ok () := rfl
  unfold InMemoryBlobStore.put
  split
  · exact .inl ⟨⟨_, rfl⟩, fun h => incomplete_of_error ‹_› h.1⟩
  · rename_i htarget
    split
    · rename_i hmissing
      rw [hbucket] at hmissing
      cases hmissing
    · split
      · rename_i e he
        refine .inl ⟨⟨_, rfl⟩, fun h => ?_⟩
        rw [hcheck, if_neg (not_lt.mpr h.2)] at he
        cases he
      · rename_i hok
        refine .inr ⟨rfl, (validateRef_ok_iff target).mp htarget, ?_⟩
        by_contra hlarge
        rw [hcheck, if_pos (not_le.mp hlarge)] at hok
        cases hok

theorem mem_afterBlobCall {α : Type} {x : Domain.Action α} {store : StoreId}
    {blobs : InMemoryBlobStore} {ref : ObjectRef} :
    (store, ref) ∈ (evaluate (answer d) x (afterBlobCall s store blobs [(store, ref)])).2.written :=
  (written_extends x _).subset (by simp [afterBlobCall])

/-- A copy inside a store whose container is there. -/
theorem evaluate_copy {store : StoreId}
    (hcontainer : ∃ bucket, (s.world.stores store).containers[target.container]? = some bucket) :
    CopyOutcome d s ((source.container ≠ "" ∧ source.key ≠ "") ∧
        (target.container ≠ "" ∧ target.key ≠ "") ∧ s.world.object store source ≠ none) store target
      (evaluate (answer d)
        (do Domain.Action.tryResult (← Domain.Action.ask (.blobs store (.copy source target)))) s) := by
  rcases copy_succeeds_iff (s.world.stores store) s.world.nowSeconds source hcontainer with
      ⟨⟨e, hcopy⟩, hunable⟩ | ⟨⟨stat, hcopy⟩, hable⟩
  · have hanswer : answer d (.blobs store (.copy source target)) s =
        (.error e, afterBlobCall s store (s.world.stores store) []) := by
      simp [answer, World.apply, World.blobCall, hcopy, writtenObject, afterBlobCall]
    rw [evaluate_ask hanswer]
    exact .failed hunable e rfl (untouched_of_blobCall fun _ _ => rfl)
  · have hanswer : answer d (.blobs store (.copy source target)) s =
        (.ok stat, afterBlobCall s store
          ((s.world.stores store).copy s.world.nowSeconds source target).2 [(store, target)]) := by
      simp [answer, World.apply, World.blobCall, hcopy, writtenObject, afterBlobCall]
    rw [evaluate_ask hanswer]
    exact .written hable stat rfl mem_afterBlobCall

/-- A put into a store whose container is there, and the description of its result. -/
theorem evaluate_put {store : StoreId} (data : Bytes)
    (hcontainer : ∃ bucket, (s.world.stores store).containers[target.container]? = some bucket) :
    CopyOutcome d s ((target.container ≠ "" ∧ target.key ≠ "") ∧
        data.length ≤ InMemoryBlobStore.maxObjectBytes) store target
      (evaluate (answer d) (do
        Domain.Action.tryResult (← Domain.Action.ask (.blobs store (.put target data {})))
        Domain.Action.tryResult (← Domain.Action.ask (.blobs store (.stat target)))) s) := by
  rcases put_succeeds_iff d.sha256Hex (s.world.stores store) s.world.nowSeconds data hcontainer with
    ⟨⟨e, hput⟩, hunable⟩ | ⟨hput, hable⟩
  · have hanswer : answer d (.blobs store (.put target data {})) s =
        (.error e, afterBlobCall s store (s.world.stores store) []) := by
      simp [answer, World.apply, World.blobCall, hput, writtenObject, afterBlobCall]
    rw [evaluate_ask hanswer, evaluate_error]
    exact .failed hunable e rfl (untouched_of_blobCall fun _ _ => rfl)
  · have hanswer : answer d (.blobs store (.put target data {})) s =
        (.ok (), afterBlobCall s store ((s.world.stores store).put d.sha256Hex s.world.nowSeconds
          target data {}).2 [(store, target)]) := by
      simp [answer, World.apply, World.blobCall, hput, writtenObject, afterBlobCall]
    rw [evaluate_ask hanswer, evaluate_ok]
    obtain ⟨stat, hstat⟩ : ∃ stat, (((s.world.stores store).put d.sha256Hex s.world.nowSeconds
        target data {}).2).stat target = .ok stat := by
      unfold InMemoryBlobStore.stat
      rw [validateRef_of_complete hable.1.1 hable.1.2]
      dsimp only
      split
      · exact ⟨_, rfl⟩
      · exact ⟨_, rfl⟩
    have hlast : ((afterBlobCall s store ((s.world.stores store).put d.sha256Hex
        s.world.nowSeconds target data {}).2 [(store, target)]).world.stores store).stat target =
        .ok stat := by
      simpa [afterBlobCall] using hstat
    refine .written hable stat ?_ mem_afterBlobCall
    rw [evaluate_ask answer_stat, hlast]
    rfl

theorem CopyOutcome.imp {able able' : Prop} {toStore : StoreId}
    {out : Except Exit ObjectStat × Recording} (h : CopyOutcome d s₁ able toStore target out)
    (hunder : Untouched s s₁) (hable : able ↔ able') : CopyOutcome d s able' toStore target out := by
  cases h with
  | written h stat hout hwritten => exact .written (hable.mp h) stat hout hwritten
  | failed h e hout huntouched =>
    exact .failed (fun h' => h (hable.mpr h')) e hout (hunder.trans huntouched)

/-- Whether a copy between zones succeeds, and that it writes only if it does. -/
theorem evaluate_copyBetweenZones (p : String) (source target : ObjectRef) (zone : StorageZone)
    (s : Recording) :
    CopyOutcome d s (CanCopy s.world (d.store p zone) (d.store p .persistent) source target)
      (d.store p .persistent) target
      (evaluate (answer d) (copyBetweenZones p source target zone .persistent) s) := by
  unfold copyBetweenZones
  rw [evaluate_ask (answer_forPartition _ _), evaluate_ok, evaluate_ask (answer_forPartition _ _),
    evaluate_ok]
  generalize d.store p zone = fromStore
  generalize d.store p .persistent = toStore
  by_cases hempty : target.container = ""
  · have hanswer : answer d (.blobs toStore (.ensureContainer target.container)) s =
        (.error (err .invalidArgument "容器名不能为空"),
          afterBlobCall s toStore (s.world.stores toStore) []) := by
      simp [answer, World.apply, World.blobCall, InMemoryBlobStore.ensureContainer, hempty,
        writtenObject, afterBlobCall]
    rw [evaluate_ask hanswer, evaluate_error]
    exact .failed (fun h => h.1 hempty) _ rfl (untouched_of_blobCall fun _ _ => rfl)
  · let ensured := ((s.world.stores toStore).ensureContainer target.container).2
    have hanswer : answer d (.blobs toStore (.ensureContainer target.container)) s =
        (.ok (), afterBlobCall s toStore ensured []) := by
      simp [answer, World.apply, World.blobCall, InMemoryBlobStore.ensureContainer, hempty,
        writtenObject, afterBlobCall, ensured]
    have hunder : Untouched s (afterBlobCall s toStore ensured []) :=
      untouched_of_blobCall fun c k => InMemoryBlobStore.objectAt_ensureContainer _ _ _
    have hcontainer : ∃ bucket, ((afterBlobCall s toStore ensured []).world.stores
        toStore).containers[target.container]? = some bucket := by
      simpa [afterBlobCall] using exists_ensured (s.world.stores toStore) hempty
    rw [evaluate_ask hanswer, evaluate_ok]
    by_cases hsame : fromStore = toStore
    · subst hsame
      rw [if_pos rfl]
      apply (evaluate_copy hcontainer).imp hunder
      rw [hunder.data.object, CanCopy, if_pos rfl]
      tauto
    · rw [if_neg hsame, evaluate_ask answer_stat]
      generalize hafter : afterBlobCall s toStore ensured [] = s₁ at hunder hcontainer ⊢
      by_cases hsource : source.container ≠ "" ∧ source.key ≠ ""
      · have hvalid := validateRef_of_complete hsource.1 hsource.2
        have hobject : s₁.world.object fromStore source = s.world.object fromStore source :=
          hunder.data.object fromStore source
        have hstat : (s₁.world.stores fromStore).stat source =
            .ok (((s.world.object fromStore source).map InMemoryBlobStore.statOf).getD {}) := by
          rw [← hobject, InMemoryBlobStore.stat, hvalid, World.object]
          cases (s₁.world.stores fromStore).objectAt source.container source.key <;> rfl
        rw [hstat, evaluate_ok]
        cases hfound : s.world.object fromStore source with
        | none =>
          rw [evaluate_bind_ok (x := readAll _ _ _ _ _ _) (a := []) rfl]
          apply (evaluate_put [] hcontainer).imp hunder
          simp [CanCopy, hsame, hfound, hempty, hsource]
        | some o =>
          rw [hfound] at hobject
          have hread := evaluate_readAll (d := d) hvalid (o.data.length + 1) 0 hobject
            (Nat.zero_le _) (by omega)
          rw [List.take_zero] at hread
          have hsize : (((some o).map InMemoryBlobStore.statOf).getD {}).size.toNat =
              o.data.length := Int.toNat_natCast _
          dsimp only
          rw [hsize, evaluate_bind_ok hread]
          apply (evaluate_put o.data hcontainer).imp hunder
          simp [CanCopy, hsame, hfound, hempty, hsource]
      · have hstat : ∃ e, (s₁.world.stores fromStore).stat source = .error e := by
          unfold InMemoryBlobStore.stat
          split
          · exact ⟨_, rfl⟩
          · rename_i hvalid
            exact absurd ((validateRef_ok_iff source).mp hvalid) hsource
        obtain ⟨e, hstat⟩ := hstat
        rw [hstat, evaluate_error]
        exact .failed (fun h => hsource ⟨h.2.2.1, h.2.2.2.1⟩) e rfl hunder

end Copy

/-! ## One entry -/

/-- The entry names an object that `CopyFiles` copies in this state. -/
def Copies (d : Deployment) (w : World) (partition source : String) : Prop :=
  ∃ location ref container, w.locations.findByFileSource partition source = .ok location ∧
    physicalRef location = .ref ref ∧
    containerOf partition .persistent (World.partitionConfig d.registry partition) = .ok container ∧
    CanCopy w (d.store partition location.zone) (d.store partition .persistent) ref
      { container, key := ref.key }

/-- With the same data the same entries are copied. -/
theorem copies_iff {w w' : World} (h : World.SameData w w') {partition source : String} :
    Copies d w' partition source ↔ Copies d w partition source := by
  unfold Copies CanCopy
  simp only [h.locations, h.object]

section Entry
variable {source : String}

/-- What becomes of an entry that is not rejected. -/
structure EntryOutcome {α : Type} (s : Recording) (copies : Prop) (out : Except Exit α × Recording) :
    Prop where
  noError : ∀ e, out.1 ≠ .error (.error e)
  wrote : copies → out.2.written ≠ []
  untouched : ¬copies → Untouched s out.2

theorem evaluate_attempt {α : Type} (x : Domain.Action α) :
    evaluate (answer d) (Domain.Action.attempt x) s =
      ((match (evaluate (answer d) x s).1 with
        | .ok a => .ok (.ok a)
        | .error (.error e) => .ok (.error e)
        | .error exit => .error exit), (evaluate (answer d) x s).2) :=
  Action.evaluate_exitingWith ..

theorem answer_findByFileSource (partition : String) :
    answer d (.locations (.findByFileSource partition source)) s =
      (s.world.locations.findByFileSource partition source, s) := by
  simp [answer, World.apply, World.locationCall, writtenObject]

theorem evaluate_containerFor (partition : String) (zone : StorageZone) :
    evaluate (answer d) (containerFor partition zone) s =
      (.ok (containerOf partition zone (World.partitionConfig d.registry partition)), s) := by
  have hanswer : answer d (.partitionConfig partition) s =
      (World.partitionConfig d.registry partition, s) := by
    simp [answer, World.apply, writtenObject]
  unfold containerFor
  rw [evaluate_ask hanswer]
  rfl

theorem evaluate_copyFile (caller : CallerContext)
    (hlooks : looksLikeFileSource source = true) (s : Recording) :
    EntryOutcome s (Copies d s.world caller.partition source)
      (evaluate (answer d) (copyFile caller source) s) := by
  have hgood : ¬(!looksLikeFileSource source) = true := by simp [hlooks]
  unfold copyFile
  rw [if_neg hgood, evaluate_ask (answer_findByFileSource _)]
  cases hfound : s.world.locations.findByFileSource caller.partition source with
  | error e =>
    refine ⟨by simp, fun h => ?_, fun _ => untouched_refl s⟩
    obtain ⟨location, -, -, hlocation, -⟩ := h
    rw [hfound] at hlocation
    cases hlocation
  | ok location =>
    dsimp only
    have hunable : (∀ ref, physicalRef location ≠ .ref ref) →
        ¬Copies d s.world caller.partition source := by
      rintro hnone ⟨location', ref, -, hlocation, href, -⟩
      rw [hfound] at hlocation
      obtain rfl := Except.ok.inj hlocation
      exact hnone ref href
    cases hphysical : physicalRef location with
    | notText =>
      have hthrows : evaluate (answer d) (Domain.Action.attempt (objectRefFromLocation location)) s =
          (.error (.exception "json.exception.type_error.302"), s) := by
        rw [evaluate_attempt, objectRefFromLocation, hphysical]
        rfl
      rw [evaluate_bind_error hthrows]
      have hnot := hunable (by simp [hphysical])
      exact ⟨by simp, fun h => absurd h hnot, fun _ => untouched_refl s⟩
    | incomplete =>
      have hfails : ∃ e, evaluate (answer d) (Domain.Action.attempt (objectRefFromLocation location)) s =
          (.ok (.error e), s) := by
        rw [evaluate_attempt, objectRefFromLocation, hphysical]
        exact ⟨_, rfl⟩
      obtain ⟨e, hfails⟩ := hfails
      rw [evaluate_bind_ok hfails, evaluate_bind_ok (evaluate_containerFor _ _)]
      have hnot := hunable (by simp [hphysical])
      exact ⟨by simp, fun h => absurd h hnot, fun _ => untouched_refl s⟩
    | ref ref =>
      have href : evaluate (answer d) (Domain.Action.attempt (objectRefFromLocation location)) s =
          (.ok (.ok ref), s) := by
        rw [evaluate_attempt, objectRefFromLocation, hphysical]
        rfl
      rw [evaluate_bind_ok href, evaluate_bind_ok (evaluate_containerFor _ _)]
      cases hcontainer : containerOf caller.partition .persistent
          (World.partitionConfig d.registry caller.partition) with
      | error e =>
        refine ⟨by simp, fun h => ?_, fun _ => untouched_refl s⟩
        obtain ⟨-, -, container, -, -, hcontainer', -⟩ := h
        rw [hcontainer] at hcontainer'
        cases hcontainer'
      | ok container =>
        dsimp only
        have hiff : Copies d s.world caller.partition source ↔
            CanCopy s.world (d.store caller.partition location.zone)
              (d.store caller.partition .persistent) ref { container, key := ref.key } := by
          constructor
          · rintro ⟨location', ref', container', hlocation, href', hcontainer', hable⟩
            rw [hfound] at hlocation
            obtain rfl := Except.ok.inj hlocation
            rw [hphysical] at href'
            obtain rfl := PhysicalRef.ref.inj href'
            rw [hcontainer] at hcontainer'
            obtain rfl := Except.ok.inj hcontainer'
            exact hable
          · intro hable
            exact ⟨location, ref, container, hfound, hphysical, hcontainer, hable⟩
        rw [hiff]
        have houtcome := evaluate_copyBetweenZones (d := d) caller.partition ref
          { container, key := ref.key } location.zone s
        have hattempt := evaluate_attempt (d := d) (s := s) (copyBetweenZones caller.partition ref
          { container, key := ref.key } location.zone .persistent)
        cases houtcome with
        | written hable stat hout hwritten =>
          rw [hout] at hattempt
          rw [evaluate_bind_ok hattempt]
          exact ⟨by simp, fun _ => List.ne_nil_of_mem hwritten, fun h => absurd hable h⟩
        | failed hable e hout huntouched =>
          rw [hout] at hattempt
          rw [evaluate_bind_ok hattempt]
          exact ⟨by simp, fun h => absurd h hable, fun _ => huntouched⟩

end Entry

/-! ## The loop over the entries -/

section Requests
variable {u : UseCasePorts} {caller : CallerContext} {good rest : List String} {bad : String}

/-- `Err(kInvalidSourcePath, …)` for this entry. -/
def rejection (bad : String) : Error := err .invalidSourcePath (invalidSourcePathMessage bad)

/-- The loop has ended before the bad entry, with an exception, or it ends there; and so far it has
written something just when an entry was copied. -/
theorem evaluate_copyEach (hgood : ∀ source ∈ good, looksLikeFileSource source = true)
    (hbad : looksLikeFileSource bad = false) (s : Recording)
    (hrejected : (evaluate (answer d) (copyEach caller (good ++ bad :: rest)) s).1 =
      .error (.error (rejection bad))) :
    (∃ source ∈ good, Copies d s.world caller.partition source) ∧
        (evaluate (answer d) (copyEach caller (good ++ bad :: rest)) s).2.written ≠ [] ∨
      (∀ source ∈ good, ¬Copies d s.world caller.partition source) ∧
        Untouched s (evaluate (answer d) (copyEach caller (good ++ bad :: rest)) s).2 := by
  induction good generalizing s with
  | nil =>
    have hstop : evaluate (answer d) (copyEach caller (bad :: rest)) s =
        (.error (.error (rejection bad)), s) := by
      have hreject : (!looksLikeFileSource bad) = true := by simp [hbad]
      unfold copyEach copyFile
      rw [if_pos hreject]
      rfl
    rw [List.nil_append, hstop]
    exact .inr ⟨by simp, untouched_refl s⟩
  | cons source good ih =>
    have hentry := evaluate_copyFile (d := d) caller (hgood source (by simp)) s
    rw [List.cons_append, copyEach] at hrejected ⊢
    rcases hfirst : evaluate (answer d) (copyFile caller source) s with ⟨out, s'⟩
    rw [hfirst] at hentry
    cases out with
    | error exit =>
      rw [evaluate_bind_error hfirst] at hrejected
      obtain rfl : exit = .error (rejection bad) := Except.error.inj hrejected
      exact absurd rfl (hentry.noError (rejection bad))
    | ok outcome =>
      rw [evaluate_bind_ok hfirst] at hrejected ⊢
      rcases hrest : evaluate (answer d) (copyEach caller (good ++ bad :: rest)) s' with ⟨out', s''⟩
      cases out' with
      | ok outcomes =>
        rw [evaluate_bind_ok hrest] at hrejected
        cases hrejected
      | error exit =>
        rw [evaluate_bind_error hrest] at hrejected ⊢
        have hkept := written_extends (d := d) (copyEach caller (good ++ bad :: rest)) s'
        have hnext := ih (fun source' hmem => hgood source' (by simp [hmem])) s' (by
          rw [hrest]
          exact hrejected)
        rw [hrest] at hnext hkept
        by_cases hcopies : Copies d s.world caller.partition source
        · refine .inl ⟨⟨source, by simp, hcopies⟩, fun hnil => hentry.wrote hcopies ?_⟩
          rw [show s''.written = [] from hnil] at hkept
          exact List.prefix_nil.mp hkept
        · have hunder := hentry.untouched hcopies
          simp only [copies_iff hunder.data] at hnext
          rcases hnext with ⟨⟨source', hmem, hcopied⟩, hwritten⟩ | ⟨hnone, hrestUnder⟩
          · exact .inl ⟨⟨source', by simp [hmem], hcopied⟩, hwritten⟩
          · refine .inr ⟨?_, hunder.trans hrestUnder⟩
            intro source' hmem
            rcases List.mem_cons.mp hmem with rfl | hmem
            · exact hcopies
            · exact hnone source' hmem

theorem evaluate_recordAudit (u : UseCasePorts) (operation : String) (caller : CallerContext)
    (objectId : String) (success : Bool) (s : Recording) :
    evaluate (answer d) (recordAudit u operation caller objectId success) s = (.ok (), s) := by
  have hclock : answer d .nowEpochMillis s = (s.world.nowMillis, s) := by
    simp [answer, World.apply, writtenObject]
  have hservice : ∀ audit, answer d (.service (.recordAudit audit)) s = (.ok (), s) := by
    intro audit
    simp [answer, World.apply, World.serviceCall, writtenObject]
  unfold recordAudit
  rw [evaluate_ask hclock, evaluate_ask (hservice _)]
  rfl

theorem evaluate_recordFailure (u : UseCasePorts) (operation : String) (caller : CallerContext)
    (objectId : String) (s : Recording) :
    evaluate (answer d) (recordFailure u operation caller objectId) s = (.ok (), s) := by
  have hattempt := evaluate_attempt (d := d) (s := s)
    (recordAudit u operation caller objectId false)
  rw [evaluate_recordAudit] at hattempt
  exact (evaluate_bind_ok hattempt).trans rfl

theorem evaluate_authorizeCallerAny (caller : CallerContext) (roles : List String)
    (hroles : roles ≠ []) (s : Recording) :
    evaluate (answer d) (authorizeCallerAny caller roles) s =
      if caller.partition = "" then
        (.error (.error (err .unauthenticated "Missing partitionID")), s)
      else (.ok (), s) := by
  have hservice : answer d (.service (.authorizeAny roles caller.partition caller.bearerToken)) s =
      (.ok (), s) := by
    simp [answer, World.apply, World.serviceCall, writtenObject]
  unfold authorizeCallerAny
  by_cases hpartition : caller.partition = ""
  · rw [if_pos hpartition, if_pos hpartition]
    rfl
  · rw [if_neg hpartition, if_neg hpartition]
    dsimp only
    rw [if_neg (by simpa using hroles), evaluate_ask hservice]
    rfl

/-- An audited body that ends in an error ends the whole, in the same state. -/
theorem evaluate_audited_error {α : Type} {operation objectId : String} {e : Error}
    {body : Domain.Action (Option String × α)}
    (h : (evaluate (answer d) (audited u caller operation objectId body) s).1 = .error (.error e)) :
    (evaluate (answer d) body s).1 = .error (.error e) ∧
      (evaluate (answer d) (audited u caller operation objectId body) s).2 =
        (evaluate (answer d) body s).2 := by
  have hwhole : evaluate (answer d) (audited u caller operation objectId body) s = _ :=
    Action.evaluate_exitingWith ..
  rcases hbody : evaluate (answer d) body s with ⟨out, s'⟩
  rw [hbody] at hwhole
  have hfailed : ∀ exit, evaluate (answer d) (do
      recordFailure u (operation ++ "Failure") caller objectId
      throw exit : Domain.Action α) s' = (.error exit, s') := fun exit =>
    (evaluate_bind_ok (evaluate_recordFailure ..)).trans rfl
  cases out with
  | ok result =>
    obtain ⟨successId, a⟩ := result
    have hreturns : (evaluate (answer d) (audited u caller operation objectId body) s).1 = .ok a := by
      rw [hwhole]
      cases successId with
      | none => exact congrArg Prod.fst (evaluate_bind_ok (evaluate_recordFailure ..))
      | some id => exact congrArg Prod.fst (evaluate_bind_ok (evaluate_recordAudit ..))
    rw [hreturns] at h
    cases h
  | error exit =>
    cases exit with
    | diverged =>
      rw [hwhole] at h
      cases h
    | exception what =>
      rw [hwhole] at h
      have hthrown := congrArg Prod.fst (hfailed (.exception what))
      exact absurd (hthrown.symm.trans h) (by simp)
    | error e' =>
      rw [hwhole] at h ⊢
      have hthrown := hfailed (.error e')
      have hsame := (congrArg Prod.fst hthrown).symm.trans h
      obtain rfl : e' = e := by simpa using hsame
      exact ⟨rfl, congrArg Prod.snd hthrown⟩

/-- A request that is rejected because of an entry has written nothing just when none of the
entries before it names an object that is copied. -/
theorem rejected_request_writes_nothing_iff (d : Deployment) (u : UseCasePorts)
    (caller : CallerContext) (good : List String) (bad : String) (rest : List String) (w : World)
    (hgood : ∀ source ∈ good, looksLikeFileSource source = true)
    (hbad : looksLikeFileSource bad = false)
    (hrejected : (evaluate (answer d) (copyFiles u caller (good ++ bad :: rest)) { world := w }).1 =
      .error (.error (rejection bad))) :
    (evaluate (answer d) (copyFiles u caller (good ++ bad :: rest)) { world := w }).2.written = [] ↔
      ∀ source ∈ good, ¬Copies d w caller.partition source := by
  obtain ⟨hbody, hstate⟩ := evaluate_audited_error hrejected
  unfold copyFiles
  rw [hstate]
  have hauthorized := evaluate_authorizeCallerAny (d := d) caller
    [roleStorageCreator, roleStorageAdmin] (by simp) { world := w }
  split_ifs at hauthorized with hpartition
  · rw [evaluate_bind_error hauthorized] at hbody
    simp [rejection, err] at hbody
  rw [evaluate_bind_ok hauthorized] at hbody ⊢
  rcases hloop : evaluate (answer d) (copyEach caller (good ++ bad :: rest)) { world := w } with
    ⟨out, s'⟩
  cases out with
  | ok outcomes =>
    rw [evaluate_bind_ok hloop] at hbody
    cases hbody
  | error exit =>
    rw [evaluate_bind_error hloop] at hbody ⊢
    obtain rfl : exit = .error (rejection bad) := Except.error.inj hbody
    have hrejected' : (evaluate (answer d) (copyEach caller (good ++ bad :: rest))
        { world := w }).1 = .error (.error (rejection bad)) := by rw [hloop]
    rcases evaluate_copyEach hgood hbad _ hrejected' with ⟨⟨source, hmem, hcopies⟩, hwritten⟩ | ⟨hnone, hunder⟩
    · rw [hloop] at hwritten
      exact iff_of_false hwritten fun h => h source hmem hcopies
    · rw [hloop] at hunder
      exact iff_of_true hunder.written hnone

end Requests

/-! ## Sample requests -/

/-- A request on the sample deployment, where `/f` is the staged file. -/
def sampleRequest (sources : List String) : Except Exit (List CopyFileOutcome) × Recording :=
  evaluate (answer sampleDeployment) (copyFiles samplePorts sampleCaller sources)
    { world := stagedWorld }

def rejectedFor (bad : String) (out : Except Exit (List CopyFileOutcome)) : Bool :=
  match out with
  | .error (.error e) => e == rejection bad
  | _ => false

theorem eq_of_rejectedFor {bad : String} {out : Except Exit (List CopyFileOutcome)}
    (h : rejectedFor bad out = true) : out = .error (.error (rejection bad)) := by
  unfold rejectedFor at h
  split at h
  · rw [eq_of_beq h]
  · cases h

theorem unknown_source_copies_nothing : (sampleRequest ["/g", "bad"]).2.written = [] := by
  have hrejected : (sampleRequest ["/g", "bad"]).1 = .error (.error (rejection "bad")) :=
    eq_of_rejectedFor (by decide +kernel)
  have hunknown : (stagedWorld.locations.findByFileSource "p" "/g").isOk = false := by
    decide +kernel
  refine (rejected_request_writes_nothing_iff sampleDeployment samplePorts sampleCaller ["/g"] "bad"
    [] stagedWorld (by decide +kernel) (by decide +kernel) hrejected).mpr ?_
  rintro source hmem ⟨location, ref, container, hfound, -⟩
  obtain rfl := List.mem_singleton.mp hmem
  have hfound' : stagedWorld.locations.findByFileSource "p" "/g" = .ok location := hfound
  rw [hfound'] at hunknown
  cases hunknown

/-- The staged file is copied before the request is rejected for its second entry. -/
theorem staged_file_copied_then_rejected : ¬∀ (d : Deployment) (u : UseCasePorts)
    (caller : CallerContext) (good : List String) (bad : String) (rest : List String) (w : World),
    (∀ source ∈ good, looksLikeFileSource source = true) → looksLikeFileSource bad = false →
      (evaluate (answer d) (copyFiles u caller (good ++ bad :: rest)) { world := w }).1 =
        .error (.error (rejection bad)) →
      (evaluate (answer d) (copyFiles u caller (good ++ bad :: rest)) { world := w }).2.written =
        [] := by
  intro h
  have hrejected : (sampleRequest ["/f", "bad"]).1 = .error (.error (rejection "bad")) :=
    eq_of_rejectedFor (by decide +kernel)
  have hnothing : (sampleRequest ["/f", "bad"]).2.written = [] :=
    h sampleDeployment samplePorts sampleCaller ["/f"] "bad" [] stagedWorld (by decide +kernel)
      (by decide +kernel) hrejected
  have hwritten : (sampleRequest ["/f", "bad"]).2.written.isEmpty = false := by decide +kernel
  rw [hnothing] at hwritten
  cases hwritten

end FileService.Safety.CopyRequests
