import FileService.Common.Indexed
import FileService.Domain.Types
import Mathlib.Data.List.TakeWhile

/-!
# The in-memory blob store

Objects by container and key. A removal of a missing object succeeds, a stat of
one reports that it does not exist, and a copy overwrites its target.
-/
namespace FileService.Infra
open FileService.Common FileService.Domain

structure BlobObject where
  data : Bytes := []
  contentType : String := ""
  checksum : String := ""
  checksumAlgorithm : String := ""
  lastModifiedEpochSeconds : Int := 0
deriving DecidableEq

theorem addressed_empty {c k : String} {o : BlobObject}
    (h : (∅ : Buckets BlobObject).get? c k = some o) : c ≠ "" ∧ k ≠ "" := by
  simp at h

structure InMemoryBlobStore where
  containers : Buckets BlobObject := ∅
  addressed : ∀ {c k o}, containers.get? c k = some o → c ≠ "" ∧ k ≠ "" := by
    exact @addressed_empty

namespace InMemoryBlobStore

def objectAt (store : InMemoryBlobStore) (container key : String) : Option BlobObject :=
  store.containers.get? container key

def capabilities : BlobCapabilities where
  nativePresign := false
  serverSideCopy := true
  rangeRead := true
  streamingPut := true
  recommendedPartSize := 0
  driverName := "memory"

def validateRef (ref : ObjectRef) : Result Unit :=
  if ref.container = "" then .error (err .invalidArgument "ObjectRef.container 不能为空")
  else if ref.key = "" then .error (err .invalidArgument "ObjectRef.key 不能为空")
  else .ok ()

theorem validateRef_ok {ref : ObjectRef} (h : validateRef ref = .ok ()) :
    ref.container ≠ "" ∧ ref.key ≠ "" := by
  unfold validateRef at h
  split_ifs at h with hc hk
  exact ⟨hc, hk⟩

def ensureContainer (store : InMemoryBlobStore) (container : String) :
    Result Unit × InMemoryBlobStore :=
  if container = "" then (.error (err .invalidArgument "容器名不能为空"), store)
  else
    (.ok (), { containers := store.containers.ensure container
               addressed := by
                 intro c k o h
                 rw [Buckets.get?_ensure] at h
                 exact store.addressed h })

def presign : Result SignedLocation :=
  .error (err .unimplemented "内存存储不提供原生预签名 URL（native_presign=false）")

def write (store : InMemoryBlobStore) (ref : ObjectRef) (href : validateRef ref = .ok ())
    (object : BlobObject) : InMemoryBlobStore where
  containers := store.containers.put ref.container ref.key object
  addressed := by
    intro c k o h
    rw [Buckets.get?_put] at h
    split at h
    · rename_i heq
      exact heq.1 ▸ heq.2 ▸ validateRef_ok href
    · exact store.addressed h

def normalizeAlgorithm (text : String) : String := Text.normalizedName ['-', '_'] text

def maxObjectBytes : Nat := 2 ^ 30

/-- The checks of a put on the bytes it received. -/
def checkPut (sha256Hex : Bytes → String) (data : Bytes) (options : PutOptions) : Result Unit :=
  if maxObjectBytes < data.length then
    .error (err .invalidArgument ("流长度 " ++ toString data.length ++ " 超过上限 " ++
      toString maxObjectBytes))
  else if 0 ≤ options.expectedSize ∧ (data.length : Int) ≠ options.expectedSize then
    .error (((err .invalidArgument "写入长度与 expected_size 不符").withDetail "expected"
      (toString options.expectedSize)).withDetail "actual" (toString data.length))
  else if options.expectedChecksum = "" then .ok ()
  else if options.checksumAlgorithm = "" then
    .error (err .invalidArgument "提供 expected_checksum 时必须同时给 checksum_algorithm")
  else if normalizeAlgorithm options.checksumAlgorithm ≠ "sha256" then
    .error (err .invalidArgument ("不支持的校验和算法：" ++ options.checksumAlgorithm))
  else if Text.toLower (sha256Hex data) ≠ Text.toLower options.expectedChecksum then
    .error (((err .checksumMismatch "校验和不符").withDetail "expected"
      options.expectedChecksum).withDetail "actual" (sha256Hex data))
  else .ok ()

/-- `put` of bytes already read from the source stream. -/
def put (sha256Hex : Bytes → String) (store : InMemoryBlobStore) (nowSeconds : Int)
    (ref : ObjectRef) (data : Bytes) (options : PutOptions) : Result Unit × InMemoryBlobStore :=
  match href : validateRef ref with
  | .error e => (.error e, store)
  | .ok () =>
    match store.containers[ref.container]? with
    | none => (.error (err .notFound ("容器不存在：" ++ ref.container ++
        "（调用方必须先 ensure_container）")), store)
    | some _ =>
      match checkPut sha256Hex data options with
      | .error e => (.error e, store)
      | .ok () =>
        (.ok (), store.write ref href
          { data
            contentType := options.contentType
            checksum := sha256Hex data
            checksumAlgorithm := "SHA256"
            lastModifiedEpochSeconds := nowSeconds })

def missing (ref : ObjectRef) : Error := err .notFound ("对象不存在：" ++ ref.toText)

def get (store : InMemoryBlobStore) (ref : ObjectRef) (range : ByteRange) : Result Bytes :=
  match validateRef ref with
  | .error e => .error e
  | .ok () =>
    match store.objectAt ref.container ref.key with
    | none => .error (missing ref)
    | some object =>
      if range.isWholeObject then .ok object.data
      else if object.data.length ≤ range.offset then
        .error (err .invalidArgument "区间起点越界")
      else
        let rest := object.data.drop range.offset
        .ok (if range.length = 0 then rest else rest.take range.length)

def statOf (object : BlobObject) : ObjectStat where
  «exists» := true
  size := object.data.length
  contentType := object.contentType
  checksum := object.checksum
  checksumAlgorithm := object.checksumAlgorithm
  lastModifiedEpochSeconds := object.lastModifiedEpochSeconds

def stat (store : InMemoryBlobStore) (ref : ObjectRef) : Result ObjectStat :=
  match validateRef ref with
  | .error e => .error e
  | .ok () =>
    match store.objectAt ref.container ref.key with
    | none => .ok {}
    | some object => .ok (statOf object)

def erase (store : InMemoryBlobStore) (container key : String) : InMemoryBlobStore where
  containers := store.containers.remove container key
  addressed := by
    intro c k o h
    rw [Buckets.get?_remove] at h
    split at h
    · cases h
    · exact store.addressed h

def remove (store : InMemoryBlobStore) (ref : ObjectRef) : Result Unit × InMemoryBlobStore :=
  match validateRef ref with
  | .error e => (.error e, store)
  | .ok () => (.ok (), store.erase ref.container ref.key)

def copy (store : InMemoryBlobStore) (nowSeconds : Int) (source target : ObjectRef) :
    Result ObjectStat × InMemoryBlobStore :=
  match validateRef source, htarget : validateRef target with
  | .error e, _ => (.error e, store)
  | .ok (), .error e => (.error e, store)
  | .ok (), .ok () =>
    match store.objectAt source.container source.key with
    | none => (.error (err .notFound ("复制源不存在：" ++ source.toText)), store)
    | some object =>
      match store.containers[target.container]? with
      | none => (.error (err .notFound ("目标容器不存在：" ++ target.container)), store)
      | some _ =>
        let copied := { object with lastModifiedEpochSeconds := nowSeconds }
        (.ok (statOf copied), store.write target htarget copied)

/-- The entries a listing goes through: from the prefix, or after the token of the last page. -/
def listed (store : InMemoryBlobStore) (container pre continuationToken : String) :
    List (String × BlobObject) :=
  ((store.containers.entries container).filter fun (k, _) =>
    if continuationToken = "" then decide (pre ≤ k) else decide (continuationToken < k)).takeWhile
      fun (k, _) => Text.startsWith k pre

def entryOf (e : String × BlobObject) : ListEntry where
  key := e.1
  size := e.2.data.length
  lastModifiedEpochSeconds := e.2.lastModifiedEpochSeconds

def list (store : InMemoryBlobStore) (container pre continuationToken : String) (limit : Int) :
    Result ListPage :=
  if limit ≤ 0 then .error (err .invalidArgument "list 的 limit 必须 > 0")
  else
    match store.containers[container]? with
    | none => .error (err .notFound ("容器不存在：" ++ container))
    | some _ =>
      let rest := store.listed container pre continuationToken
      let page := (rest.take limit.toNat).map entryOf
      if rest.length ≤ limit.toNat then .ok { entries := page }
      else
        .ok { entries := page
              truncated := true
              continuationToken := (page.getLast?.map (·.key)).getD "" }

def tempMarker : String := ".tmp."

/-- The temporary objects of a container, with those that are old enough to go. -/
def sweepable (store : InMemoryBlobStore) (container : String) (olderThan : Int) :
    List (String × BlobObject) × List (String × BlobObject) :=
  ((store.containers.entries container).filter fun (k, _) =>
    Text.containsText k tempMarker).partition fun (_, o) =>
      decide (o.lastModifiedEpochSeconds ≤ olderThan)

def removeTempFiles (store : InMemoryBlobStore) (container : String)
    (olderThanEpochSeconds : Int) (dryRun : Bool) : Result TempSweepResult × InMemoryBlobStore :=
  let (old, young) := store.sweepable container olderThanEpochSeconds
  (.ok { removed := old.length, skippedTooYoung := young.length },
    if dryRun then store else old.foldl (fun s (k, _) => s.erase container k) store)

section Specs
variable {store : InMemoryBlobStore}

theorem objectAt_write {ref : ObjectRef} (href : validateRef ref = .ok ()) {o : BlobObject}
    (c k : String) : (store.write ref href o).objectAt c k =
      if ref.container = c ∧ ref.key = k then some o else store.objectAt c k :=
  Buckets.get?_put _ _ _ _ _ _

theorem objectAt_erase (c k c' k' : String) : (store.erase c k).objectAt c' k' =
    if c = c' ∧ k = k' then none else store.objectAt c' k' :=
  Buckets.get?_remove _ _ _ _ _

theorem objectAt_ensureContainer (c c' k : String) :
    (store.ensureContainer c).2.objectAt c' k = store.objectAt c' k := by
  unfold ensureContainer
  split
  · rfl
  · exact Buckets.get?_ensure _ _ _ _

/-- A put fails without effect, or its target holds the bytes. -/
theorem put_cases (sha256Hex : Bytes → String) (store : InMemoryBlobStore) (now : Int)
    (ref : ObjectRef) (data : Bytes) (options : PutOptions) :
    (∃ e, put sha256Hex store now ref data options = (.error e, store)) ∨
    ∃ o : BlobObject, o.data = data ∧ o.checksum = sha256Hex data ∧
      o.checksumAlgorithm = "SHA256" ∧ o.lastModifiedEpochSeconds = now ∧
      (put sha256Hex store now ref data options).1 = .ok () ∧
      ∀ c k, (put sha256Hex store now ref data options).2.objectAt c k =
        if ref.container = c ∧ ref.key = k then some o else store.objectAt c k := by
  unfold put
  split
  · exact .inl ⟨_, rfl⟩
  · split
    · exact .inl ⟨_, rfl⟩
    · split
      · exact .inl ⟨_, rfl⟩
      · exact .inr ⟨_, rfl, rfl, rfl, rfl, rfl, objectAt_write ‹_›⟩

/-- A copy fails without effect, or its target holds the bytes of an existing source. -/
theorem copy_cases (store : InMemoryBlobStore) (now : Int) (source target : ObjectRef) :
    (∃ e, store.copy now source target = (.error e, store)) ∨
    ∃ o, store.objectAt source.container source.key = some o ∧
      (store.copy now source target).1 =
        .ok (statOf { o with lastModifiedEpochSeconds := now }) ∧
      ∀ c k, (store.copy now source target).2.objectAt c k =
        if target.container = c ∧ target.key = k then
          some { o with lastModifiedEpochSeconds := now }
        else store.objectAt c k := by
  unfold copy
  split
  · exact .inl ⟨_, rfl⟩
  · exact .inl ⟨_, rfl⟩
  · split
    · exact .inl ⟨_, rfl⟩
    · rename_i o ho
      split
      · exact .inl ⟨_, rfl⟩
      · exact .inr ⟨o, ho, rfl, objectAt_write ‹_›⟩

theorem remove_cases (store : InMemoryBlobStore) (ref : ObjectRef) :
    (∃ e, store.remove ref = (.error e, store)) ∨
    ((store.remove ref).1 = .ok () ∧ ∀ c k, (store.remove ref).2.objectAt c k =
      if ref.container = c ∧ ref.key = k then none else store.objectAt c k) := by
  unfold remove
  split
  · exact .inl ⟨_, rfl⟩
  · exact .inr ⟨rfl, objectAt_erase _ _⟩

/-- The bytes that `get` delivers of an object. -/
theorem get_eq_ok {ref : ObjectRef} {range : ByteRange} {data : Bytes}
    (h : store.get ref range = .ok data) : ∃ o, store.objectAt ref.container ref.key = some o ∧
      data = if range.length = 0 then o.data.drop range.offset
        else (o.data.drop range.offset).take range.length := by
  unfold get at h
  split at h
  · cases h
  · split at h
    · cases h
    · rename_i o ho
      refine ⟨o, ho, ?_⟩
      by_cases hwhole : range.isWholeObject = true
      · rw [if_pos hwhole] at h
        simp only [ByteRange.isWholeObject, Bool.and_eq_true, beq_iff_eq] at hwhole
        cases h
        simp [hwhole]
      · rw [if_neg hwhole] at h
        by_cases hend : o.data.length ≤ range.offset
        · rw [if_pos hend] at h
          cases h
        · rw [if_neg hend] at h
          exact (Except.ok.inj h).symm

theorem stat_eq_ok {ref : ObjectRef} {st : ObjectStat} (h : store.stat ref = .ok st) :
    st = ((store.objectAt ref.container ref.key).map statOf).getD {} := by
  unfold stat at h
  split at h
  · cases h
  · split at h
    · rename_i hnone
      cases h
      simp [hnone]
    · rename_i o ho
      cases h
      simp [ho]

/-- The entries of a listing are objects of the container. -/
theorem mem_list {c pre token : String} {limit : Int} {page : ListPage} {e : ListEntry}
    (h : store.list c pre token limit = .ok page) (he : e ∈ page.entries) :
    ∃ o, store.objectAt c e.key = some o ∧
      e.lastModifiedEpochSeconds = o.lastModifiedEpochSeconds := by
  have hmem : ∀ e ∈ ((store.listed c pre token).take limit.toNat).map entryOf,
      ∃ o, store.objectAt c e.key = some o ∧
        e.lastModifiedEpochSeconds = o.lastModifiedEpochSeconds := by
    intro e he
    obtain ⟨⟨k, o⟩, hko, rfl⟩ := List.mem_map.mp he
    have hfilter := List.mem_of_mem_filter ((List.takeWhile_subset _) (List.mem_of_mem_take hko))
    exact ⟨o, Buckets.mem_entries.mp hfilter, rfl⟩
  unfold list at h
  split_ifs at h
  split at h
  · cases h
  · dsimp only at h
    split_ifs at h <;> (cases h; exact hmem e he)

/-- A sweep removes nothing but old temporary objects of its container. -/
theorem removeTempFiles_objectAt (store : InMemoryBlobStore) (c : String) (olderThan : Int)
    (dryRun : Bool) (c' k : String) :
    (store.removeTempFiles c olderThan dryRun).2.objectAt c' k = store.objectAt c' k ∨
    (c' = c ∧ Text.containsText k tempMarker = true ∧ dryRun = false ∧
      (∃ o, store.objectAt c' k = some o ∧ o.lastModifiedEpochSeconds ≤ olderThan) ∧
      (store.removeTempFiles c olderThan dryRun).2.objectAt c' k = none) := by
  cases dryRun with
  | true => exact .inl rfl
  | false =>
    have hold : ∀ e ∈ (store.sweepable c olderThan).1,
        Text.containsText e.1 tempMarker = true ∧ store.objectAt c e.1 = some e.2 ∧
          e.2.lastModifiedEpochSeconds ≤ olderThan := by
      rintro ⟨key, o⟩ he
      simp only [sweepable, List.partition_eq_filter_filter, List.mem_filter,
        decide_eq_true_eq] at he
      exact ⟨he.1.2, Buckets.mem_entries.mp he.1.1, he.2⟩
    simp only [removeTempFiles, Bool.false_eq_true, if_false, true_and]
    generalize (store.sweepable c olderThan).1 = old at hold
    suffices hfold : ∀ s : InMemoryBlobStore, (s.objectAt c' k = store.objectAt c' k ∨
        (c' = c ∧ Text.containsText k tempMarker = true ∧
          (∃ o, store.objectAt c' k = some o ∧ o.lastModifiedEpochSeconds ≤ olderThan) ∧
          s.objectAt c' k = none)) →
        ((old.foldl (fun s e => s.erase c e.1) s).objectAt c' k = store.objectAt c' k ∨
        (c' = c ∧ Text.containsText k tempMarker = true ∧
          (∃ o, store.objectAt c' k = some o ∧ o.lastModifiedEpochSeconds ≤ olderThan) ∧
          (old.foldl (fun s e => s.erase c e.1) s).objectAt c' k = none)) from
      hfold store (.inl rfl)
    induction old with
    | nil => exact fun s hs => hs
    | cons e old ih =>
      intro s hs
      refine ih (fun w hw => hold w (List.mem_cons_of_mem _ hw)) (s.erase c e.1) ?_
      rw [objectAt_erase]
      by_cases hk : c = c' ∧ e.1 = k
      · obtain ⟨rfl, rfl⟩ := hk
        obtain ⟨htemp, hobj, hage⟩ := hold e (List.mem_cons_self ..)
        exact .inr ⟨rfl, htemp, ⟨e.2, hobj, hage⟩, by simp⟩
      · rw [if_neg hk]
        exact hs

end Specs

section Listing
variable {store : InMemoryBlobStore} {c token : String}

theorem listed_start : store.listed c "" "" = store.containers.entries c := by
  have hpre : ∀ k : String, ("" : String) ≤ k := fun k => List.not_lt_nil k.toList
  simp only [listed, hpre, if_pos, decide_true, List.filter_true]
  exact List.takeWhile_eq_self_iff.mpr (by simp [Text.startsWith])

theorem listed_from (htoken : token ≠ "") : store.listed c "" token =
    (store.containers.entries c).filter fun e => decide (token < e.1) := by
  simp only [listed, if_neg htoken]
  exact List.takeWhile_eq_self_iff.mpr (by simp [Text.startsWith])

theorem listed_subset {e : String × BlobObject} (he : e ∈ store.listed c "" token) :
    e ∈ store.containers.entries c :=
  List.mem_of_mem_filter (List.takeWhile_subset _ he)

/-- The key of the last entry of a page leads to the entries that come after it. -/
theorem listed_next {n : Nat} {e : String × BlobObject}
    (hlast : ((store.listed c "" token).take n).getLast? = some e) :
    store.listed c "" e.1 = (store.listed c "" token).drop n := by
  have hmem : e ∈ store.listed c "" token := List.mem_of_mem_take (List.mem_of_getLast? hlast)
  have hkey : e.1 ≠ "" := (store.addressed (Buckets.mem_entries.mp (listed_subset hmem))).2
  have hsorted := store.containers.entries_sorted c
  rw [listed_from hkey]
  by_cases htoken : token = ""
  · subst htoken
    rw [listed_start] at hlast ⊢
    exact Buckets.filter_after_page hsorted hlast
  · rw [listed_from htoken] at hlast hmem ⊢
    rw [← Buckets.filter_after_page (hsorted.filter _) hlast, List.filter_filter]
    refine List.filter_congr fun a _ => ?_
    have hafter : token < e.1 := by simpa using List.of_mem_filter hmem
    by_cases ha : e.1 < a.1
    · simp [ha, String.lt_trans hafter ha]
    · simp [ha]

/-- A page holds the first entries, and its token is empty or the key of the last one. -/
theorem list_page {limit : Nat} (hlimit : 0 < limit) {page : ListPage}
    (h : store.list c "" token limit = .ok page) :
    page.entries = ((store.listed c "" token).take limit).map entryOf ∧
      ((store.listed c "" token).length ≤ limit ∧ page.continuationToken = "" ∨
        limit < (store.listed c "" token).length ∧
          ∃ e, ((store.listed c "" token).take limit).getLast? = some e ∧
            page.continuationToken = e.1 ∧ e.1 ≠ "") := by
  unfold list at h
  rw [if_neg (by omega)] at h
  split at h
  · cases h
  · dsimp only [Int.toNat_natCast] at h
    split_ifs at h with hlast
    · cases h
      exact ⟨rfl, .inl ⟨hlast, rfl⟩⟩
    · cases h
      refine ⟨rfl, .inr ⟨by omega, ?_⟩⟩
      cases he : ((store.listed c "" token).take limit).getLast? with
      | none =>
        have hempty := List.getLast?_eq_none_iff.mp he
        simp only [List.take_eq_nil_iff] at hempty
        rcases hempty with hzero | hnil
        · omega
        · simp [hnil] at hlast
      | some e =>
        have hmem := List.mem_of_mem_take (List.mem_of_getLast? he)
        exact ⟨e, rfl, by rw [List.getLast?_map, he]; rfl,
          (store.addressed (Buckets.mem_entries.mp (listed_subset hmem))).2⟩

end Listing

end InMemoryBlobStore

end FileService.Infra
