import FileService.Common.Paging
import FileService.Infra.BlobMemory
import FileService.Posix.BlobStore
import Mathlib.Data.String.Basic

/-!
# Listings

A listing of a directory walks through all its files and sorts what it finds; a
listing of the memory goes through a sorted map. The token of a page is the last
key on it, and every call finds the content of its own time.
-/
namespace FileService.Posix
open FileService.Common FileService.Common.Paging FileService.Domain FileService.Infra

/-! ## The listing of a directory -/

/-- What the walk through a directory says of an entry: its name relative to the directory, and
its time and size where they can be read. -/
structure WalkedFile where
  relative : String
  regular : Bool := true
  mtime : Option Int := none
  fileSize : Option Nat := none

/-- The directory of a container: the walk comes to every entry once. -/
structure Directory where
  files : List WalkedFile
  nodup : (files.map (·.relative)).Nodup
  named : ∀ f ∈ files, f.relative ≠ ""

/-- The objects that the walk finds, in the order of their keys. -/
def Directory.found (directory : Directory) : List WalkedFile :=
  (directory.files.filter fun f => f.regular && !isInternalKey f.relative).mergeSort
    fun f g => decide (f.relative ≤ g.relative)

def entryOf (now : Int) (f : WalkedFile) : ListEntry where
  key := f.relative
  size := f.fileSize.getD 0
  lastModifiedEpochSeconds := f.mtime.getD now

/-- Where a page begins: `lower_bound` of the prefix, or `upper_bound` of the token. -/
def startOfPage (pre continuationToken : String) (found : List WalkedFile) : List WalkedFile :=
  if continuationToken = "" then found.dropWhile fun f => decide (f.relative < pre)
  else found.dropWhile fun f => !decide (continuationToken < f.relative)

/-- The loop of `list`; `entries` is the page so far. -/
def listLoop (now : Int) (pre : String) (limit : Nat) : List WalkedFile → List ListEntry → ListPage
  | [], entries => { entries }
  | f :: rest, entries =>
    if !Text.startsWith f.relative pre then { entries }
    else if entries.length = limit then
      { entries
        truncated := true
        continuationToken := (entries.getLast?.map (·.key)).getD "" }
    else listLoop now pre limit rest (entries ++ [entryOf now f])

/-- A listing where the container has this directory, if it exists. -/
def PosixBlobStore.list (store : PosixBlobStore) (now : Int) (directory : Option Directory)
    (container pre continuationToken : String) (limit : Int) : Result ListPage :=
  if limit ≤ 0 then .error (err .invalidArgument "list 的 limit 必须 > 0")
  else do
    let _ ← store.containerDir container
    match directory with
    | none => .error (err .notFound ("容器不存在：" ++ container))
    | some directory =>
      return listLoop now pre limit.toNat
        (startOfPage pre continuationToken directory.found) []

/-! ## Pages -/

section Pages
variable {pre token : String} {limit : Nat} {content : List ListEntry}

/-- The token of a call; the empty one is that of the first page. -/
def tokenOf (text : String) : Option String := if text = "" then none else some text

/-- The page of what is left. -/
def pageOf (limit : Nat) (rest : List ListEntry) : ListPage :=
  if rest.length ≤ limit then { entries := rest.take limit }
  else
    { entries := rest.take limit
      truncated := true
      continuationToken := ((rest.take limit).getLast?.map (·.key)).getD "" }

/-- The entries whose keys have the prefix. -/
def matching (pre : String) (content : List ListEntry) : List ListEntry :=
  content.filter fun e => Text.startsWith e.key pre

theorem startsWith_of_between {a b : String} (hle : pre ≤ a) (hab : a ≤ b)
    (hb : Text.startsWith b pre = true) : Text.startsWith a pre = true := by
  unfold Text.startsWith at hb ⊢
  rw [List.isPrefixOf_iff_prefix] at hb ⊢
  obtain ⟨rest, hrest⟩ := hb
  apply @starts_of_between _ _ _ _ rest
  · rw [← String.lt_iff_toList_lt]
    exact not_lt.mpr hle
  · rw [hrest, ← String.lt_iff_toList_lt]
    exact not_lt.mpr hab

theorem le_of_startsWith {a : String} (ha : Text.startsWith a pre = true) : pre ≤ a := by
  unfold Text.startsWith at ha
  rw [List.isPrefixOf_iff_prefix] at ha
  obtain ⟨rest, hrest⟩ := ha
  rw [← not_lt, String.lt_iff_toList_lt, ← hrest]
  exact List.not_lt.mpr List.le_append_left

/-- The first page begins at the prefix; what has the prefix comes before what has not. -/
theorem takeWhile_from_prefix (hcontent : Increasing ListEntry.key content) :
    (content.filter fun e => decide (pre ≤ e.key)).takeWhile (fun e => Text.startsWith e.key pre) =
      matching pre content := by
  rw [takeWhile_eq_filter, List.filter_filter]
  · apply List.filter_congr
    intro e _
    cases he : Text.startsWith e.key pre with
    | true => simp [le_of_startsWith he]
    | false => rfl
  · have hsorted := hcontent.sublist (List.filter_sublist (p := fun e => decide (pre ≤ e.key)).map _)
    rw [List.pairwise_map] at hsorted
    apply hsorted.imp_of_mem
    intro a b ha _ hab hb
    exact startsWith_of_between (by simpa using List.of_mem_filter ha) hab.le hb

/-- Behind a key with the prefix it is the same. -/
theorem takeWhile_from_token (hcontent : Increasing ListEntry.key content)
    (htoken : Text.startsWith token pre = true) :
    (content.filter fun e => decide (token < e.key)).takeWhile
        (fun e => Text.startsWith e.key pre) =
      (matching pre content).filter fun e => decide (token < e.key) := by
  rw [takeWhile_eq_filter, matching, List.filter_comm]
  have hsorted := hcontent.sublist (List.filter_sublist (p := fun e => decide (token < e.key)).map _)
  rw [List.pairwise_map] at hsorted
  apply hsorted.imp_of_mem
  intro a b ha _ hab hb
  have hafter : token < a.key := by simpa using List.of_mem_filter ha
  exact startsWith_of_between ((le_of_startsWith htoken).trans hafter.le) hab.le hb

/-- What is left behind a token is what a search from it goes through. -/
theorem remaining_tokenOf :
    remaining ListEntry.key (tokenOf token) content =
      if token = "" then content else content.filter fun e => decide (token < e.key) := by
  unfold remaining tokenOf
  by_cases htoken : token = ""
  · rw [if_pos htoken, if_pos htoken]
    apply List.filter_eq_self.mpr
    simp
  · rw [if_neg htoken, if_neg htoken]
    simp

end Pages

/-! ## What both stores list -/

section Lists
variable {pre token container dir : String} {limit : Nat} {now : Int}

theorem listLoop_eq {found : List WalkedFile} {entries : List ListEntry}
    (h : entries.length ≤ limit) : listLoop now pre limit found entries =
      pageOf limit (entries ++ (found.map (entryOf now)).takeWhile
        fun e => Text.startsWith e.key pre) := by
  induction found generalizing entries with
  | nil =>
    unfold listLoop pageOf
    simp [h, List.take_of_length_le h]
  | cons f rest ih =>
    unfold listLoop
    rw [List.map_cons]
    cases hf : Text.startsWith f.relative pre with
    | false =>
      rw [List.takeWhile_cons_of_neg (by simp [entryOf, hf])]
      unfold pageOf
      simp [h, List.take_of_length_le h]
    | true =>
      have htaken : (entryOf now f :: rest.map (entryOf now)).takeWhile
          (fun e => Text.startsWith e.key pre) = entryOf now f ::
            (rest.map (entryOf now)).takeWhile fun e => Text.startsWith e.key pre :=
        List.takeWhile_cons_of_pos hf
      rw [htaken]
      by_cases hfull : entries.length = limit
      · have hmore : ¬(entries ++ entryOf now f :: (rest.map (entryOf now)).takeWhile
            fun e => Text.startsWith e.key pre).length ≤ limit := by
          rw [List.length_append, List.length_cons]
          omega
        unfold pageOf
        rw [if_neg hmore, ← hfull, List.take_left]
        simp
      · rw [if_neg (by simp), if_neg hfull, ih, List.append_assoc]
        · rfl
        · rw [List.length_append, List.length_singleton]
          omega

/-- The objects of a directory that a listing is about. -/
def Directory.entries (directory : Directory) (now : Int) : List ListEntry :=
  directory.found.map (entryOf now)

theorem Directory.mem_found {directory : Directory} {f : WalkedFile} :
    f ∈ directory.found ↔
      f ∈ directory.files ∧ f.regular = true ∧ isInternalKey f.relative = false := by
  unfold Directory.found
  rw [List.mem_mergeSort, List.mem_filter]
  simp

theorem Directory.found_increasing (directory : Directory) :
    Increasing WalkedFile.relative directory.found := by
  have hle : directory.found.Pairwise fun f g => f.relative ≤ g.relative := by
    have hsorted := @List.pairwise_mergeSort _
      (fun f g : WalkedFile => decide (f.relative ≤ g.relative))
      (fun _ _ _ hab hbc => by simpa using le_trans (by simpa using hab) (by simpa using hbc))
      (fun a b => by simpa using le_total a.relative b.relative)
      (directory.files.filter fun f => f.regular && !isInternalKey f.relative)
    exact hsorted.imp fun h => by simpa using h
  have hnodup : (directory.found.map (·.relative)).Nodup := by
    unfold Directory.found
    rw [((List.mergeSort_perm _ _).map _).nodup_iff]
    exact directory.nodup.sublist (List.filter_sublist.map _)
  unfold Increasing
  rw [List.pairwise_map]
  rw [List.Nodup, List.pairwise_map] at hnodup
  exact (hle.and hnodup).imp fun h => lt_of_le_of_ne h.1 h.2

theorem Directory.entries_increasing (directory : Directory) (now : Int) :
    Increasing ListEntry.key (directory.entries now) := by
  unfold Increasing Directory.entries
  rw [List.map_map]
  exact directory.found_increasing

/-- The search in the sorted files, seen on the entries. -/
theorem startOfPage_entries (directory : Directory) :
    (startOfPage pre token directory.found).map (entryOf now) =
      if token = "" then (directory.entries now).filter fun e => decide (pre ≤ e.key)
      else (directory.entries now).filter fun e => decide (token < e.key) := by
  have hsorted := directory.found_increasing
  unfold Increasing at hsorted
  rw [List.pairwise_map] at hsorted
  unfold startOfPage Directory.entries
  split_ifs
  · rw [dropWhile_eq_filter, List.filter_map]
    · congr 1
      apply List.filter_congr
      intro f _
      change (!decide (f.relative < pre)) = decide (pre ≤ f.relative)
      rw [← decide_not]
      exact decide_eq_decide.mpr not_lt
    · apply hsorted.imp
      intro f g hfg hg
      rw [decide_eq_true_eq] at hg ⊢
      exact hfg.trans hg
  · rw [dropWhile_eq_filter, List.filter_map]
    · congr 1
      apply List.filter_congr
      intro f _
      exact Bool.not_not _
    · apply hsorted.imp
      intro f g hfg hg
      rw [Bool.not_eq_true', decide_eq_false_iff_not, not_lt] at hg ⊢
      exact hfg.le.trans hg

theorem posix_list_eq {store : PosixBlobStore} {directory : Directory}
    (hdir : store.containerDir container = .ok dir) (hlimit : 0 < limit) :
    store.list now (some directory) container pre token limit =
      .ok (pageOf limit ((if token = "" then
        (directory.entries now).filter fun e => decide (pre ≤ e.key)
      else (directory.entries now).filter fun e => decide (token < e.key)).takeWhile
        fun e => Text.startsWith e.key pre)) := by
  unfold PosixBlobStore.list
  rw [if_neg (by omega), hdir]
  change Except.ok (listLoop _ _ _ _ _) = _
  rw [listLoop_eq (Nat.zero_le _), List.nil_append, startOfPage_entries, Int.toNat_natCast]

theorem memory_list_eq {store : InMemoryBlobStore}
    (hcontainer : store.containers[container]?.isSome) (hlimit : 0 < limit) :
    store.list container pre token limit =
      .ok (pageOf limit ((if token = "" then
        ((store.containers.entries container).map InMemoryBlobStore.entryOf).filter
          fun e => decide (pre ≤ e.key)
      else ((store.containers.entries container).map InMemoryBlobStore.entryOf).filter
        fun e => decide (token < e.key)).takeWhile fun e => Text.startsWith e.key pre)) := by
  obtain ⟨objects, hobjects⟩ := Option.isSome_iff_exists.mp hcontainer
  have hlisted : (store.listed container pre token).map InMemoryBlobStore.entryOf =
      (if token = "" then
        ((store.containers.entries container).map InMemoryBlobStore.entryOf).filter
          fun e => decide (pre ≤ e.key)
      else ((store.containers.entries container).map InMemoryBlobStore.entryOf).filter
        fun e => decide (token < e.key)).takeWhile fun e => Text.startsWith e.key pre := by
    unfold InMemoryBlobStore.listed
    split_ifs <;> rw [List.filter_map, List.takeWhile_map] <;> rfl
  rw [← hlisted]
  unfold InMemoryBlobStore.list pageOf
  rw [if_neg (by omega), hobjects]
  simp only [Int.toNat_natCast, List.length_map, List.map_take]
  split_ifs <;> rfl

end Lists

end FileService.Posix
