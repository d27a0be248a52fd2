import FileService.Posix.Calls

/-!
# Committing a batch of renamings

One flush of the file system covers the data of the whole batch, the renamings
follow, and one directory is flushed at the end: the directory of the first
final path of the first entry.
-/
namespace FileService.Posix
open FileService.Common FileService.Domain FileService.Interaction

/-- The directory of the first final path, from which the file system is reached. -/
def batchDirectory (entries : List BatchEntry) : String :=
  match entries with
  | { renames := first :: _ } :: _ => parentDirectory first.finalPath
  | _ => ""

/-- The renamings of one entry; the first that fails ends it, and all of its temporaries go. -/
def renameEach (tmps : List String) : List PendingRename → Program posix (Result Unit)
  | [] => pure (.ok ())
  | rename :: rest =>
    perform (.rename rename.tmp rename.finalPath) >>= fun renamed => match renamed with
    | .ok () => renameEach tmps rest
    | .error failure =>
      unlinkAll tmps >>= fun _ => pure (.error (errFromErrno "rename 失败" failure))

def renameEntry (entry : BatchEntry) : Program posix (Result Unit) :=
  renameEach entry.tmps entry.renames

def syncBatchDirectory (syncDirAfterBatch : Bool) (directory : String) : Program posix Unit :=
  if syncDirAfterBatch && directory != "" then
    discard (perform (.syncDirectory directory))
  else pure ()

def commitBatch (syncDirAfterBatch : Bool) (entries : List BatchEntry) :
    Program posix (List (Result Unit)) :=
  let directory := batchDirectory entries
  perform (.syncFilesystem directory) >>= fun synced => match synced with
  | .error e =>
    unlinkAll (entries.flatMap BatchEntry.tmps) >>= fun _ => pure (entries.map fun _ => .error e)
  | .ok () =>
    entries.mapM renameEntry >>= fun results =>
      syncBatchDirectory syncDirAfterBatch directory >>= fun _ => pure results

/-! ## What is asked of the events of a batch -/

section Law

def renamed (rename : PendingRename) : Occurrence posix :=
  ⟨.rename rename.tmp rename.finalPath, .ok ()⟩

def directorySynced (directory : String) : Occurrence posix := ⟨.syncDirectory directory, .ok ()⟩

/-- Every renaming comes after a successful flush of the file system. -/
def RenamesAfterSync (t : Trace posix) : Prop :=
  ∀ before after tmp final r, t = before ++ ⟨.rename tmp final, r⟩ :: after →
    ∃ directory, ⟨.syncFilesystem directory, .ok ()⟩ ∈ before

/-- No renaming happens in a batch whose flush of the file system failed. -/
def NoRenameUnsynced (t : Trace posix) : Prop :=
  ∀ directory e, ⟨.syncFilesystem directory, .error e⟩ ∈ t → ∀ tmp final r,
    ⟨.rename tmp final, r⟩ ∉ t

/-- Every file of the entry was renamed, and its own directory was flushed after that. -/
def Durable (t : Trace posix) (entry : BatchEntry) : Prop :=
  ∀ rename ∈ entry.renames, ∃ before after, t = before ++ renamed rename :: after ∧
    directorySynced (parentDirectory rename.finalPath) ∈ after

/-- Every entry that is reported as committed is durable. -/
def CommittedDurable (t : Trace posix) (entries : List BatchEntry) (results : List (Result Unit)) :
    Prop :=
  ∀ (i : Nat) (entry : BatchEntry), entries[i]? = some entry → results[i]? = some (.ok ()) →
    Durable t entry

end Law

/-! ## When it holds -/

section Condition

def renameOutcome? : Occurrence posix → Option Bool
  | ⟨.rename _ _, r⟩ => some (Except.toBool r)
  | _ => none

/-- The outcomes of the renamings, in the order they were tried in. -/
def renameOutcomes (t : Trace posix) : List Bool := t.filterMap renameOutcome?

/-- For each entry, whether all of its renamings take effect under these outcomes. -/
def allRenamed : List BatchEntry → List Bool → List Bool
  | [], _ => []
  | entry :: entries, outcomes =>
    let files := entry.renames.length
    let effective := ((outcomes.take files).takeWhile id).length
    if effective = files then true :: allRenamed entries (outcomes.drop files)
    else false :: allRenamed entries (outcomes.drop (effective + 1))

/-- The flush of the directory is made and succeeds. -/
def FlushesDirectory (syncDirAfterBatch : Bool) (directory : String) (t : Trace posix) : Prop :=
  syncDirAfterBatch = true ∧ directory ≠ "" ∧ ∀ e, ⟨.syncDirectory directory, .error e⟩ ∉ t

/-- The flush of the file system fails, or every entry all of whose renamings take effect
only has files in the directory of the batch, the flush of which succeeds. -/
def SharesDirectory (syncDirAfterBatch : Bool) (entries : List BatchEntry) (t : Trace posix) :
    Prop :=
  (∃ directory e, ⟨.syncFilesystem directory, .error e⟩ ∈ t) ∨
    ∀ (i : Nat) (entry : BatchEntry), entries[i]? = some entry →
      (allRenamed entries (renameOutcomes t))[i]? = some true → ∀ rename ∈ entry.renames,
        parentDirectory rename.finalPath = batchDirectory entries ∧
          FlushesDirectory syncDirAfterBatch (batchDirectory entries) t

end Condition

/-! ## The events of a batch -/

section Events
variable {t : Trace posix} {entry : BatchEntry} {entries : List BatchEntry}
variable {r : Result Unit} {results : List (Result Unit)}

/-- The calls made while the entries of a batch are renamed. -/
def OnFiles : Occurrence posix → Prop
  | ⟨.rename .., _⟩ => True
  | ⟨.unlink _, _⟩ => True
  | _ => False

@[simp] theorem renameOutcomes_append (s t : Trace posix) :
    renameOutcomes (s ++ t) = renameOutcomes s ++ renameOutcomes t :=
  List.filterMap_append

theorem emits_unlinkAll {paths : List String} {u : Unit} (h : (unlinkAll paths).Emits t u) :
    renameOutcomes t = [] ∧ ∀ o ∈ t, OnFiles o := by
  induction paths generalizing t with
  | nil =>
    obtain ⟨rfl, -⟩ := h
    simp [renameOutcomes]
  | cons path paths ih =>
    obtain ⟨r, rest, rfl, hrest⟩ := h
    obtain ⟨hnone, hfiles⟩ := ih hrest
    constructor
    · simpa [renameOutcomes, renameOutcome?] using hnone
    · intro o ho
      rcases List.mem_cons.mp ho with rfl | ho
      · trivial
      · exact hfiles o ho

/-- What the renamings of one entry leave in the trace. -/
structure EntryEvents (renames : List PendingRename) (t : Trace posix) (r : Result Unit) :
    Prop where
  onFiles : ∀ o ∈ t, OnFiles o
  committed : r = .ok () → renameOutcomes t = List.replicate renames.length true ∧
    ∀ rename ∈ renames, renamed rename ∈ t
  failed : ∀ e, r = .error e → ∃ k < renames.length,
    renameOutcomes t = List.replicate k true ++ [false]

theorem emits_renameEach {tmps : List String} {renames : List PendingRename}
    (h : (renameEach tmps renames).Emits t r) : EntryEvents renames t r := by
  induction renames generalizing t with
  | nil =>
    obtain ⟨rfl, rfl⟩ := h
    exact ⟨by simp, by simp [renameOutcomes], by simp⟩
  | cons rename rest ih =>
    obtain ⟨reply, after, rfl, hafter⟩ := Program.emits_call_bind.mp h
    cases reply with
    | ok u =>
      have hrest := ih hafter
      refine ⟨?_, fun hr => ?_, fun e hr => ?_⟩
      · intro o ho
        rcases List.mem_cons.mp ho with rfl | ho
        · trivial
        · exact hrest.onFiles o ho
      · obtain ⟨houtcomes, hmem⟩ := hrest.committed hr
        constructor
        · simpa [renameOutcomes, renameOutcome?, Except.toBool, List.replicate_succ] using houtcomes
        · intro x hx
          rcases List.mem_cons.mp hx with rfl | hx
          · exact List.mem_cons_self
          · exact List.mem_cons_of_mem _ (hmem x hx)
      · obtain ⟨k, hk, houtcomes⟩ := hrest.failed e hr
        refine ⟨k + 1, by simpa using hk, ?_⟩
        simpa [renameOutcomes, renameOutcome?, Except.toBool, List.replicate_succ] using houtcomes
    | error failure =>
      obtain ⟨unlinks, u, last, rfl, hunlinks, rfl, rfl⟩ := Program.emits_bind.mp hafter
      obtain ⟨hnone, hfiles⟩ := emits_unlinkAll hunlinks
      refine ⟨?_, (fun hr => nomatch hr), fun e _ => ⟨0, by simp, ?_⟩⟩
      · intro o ho
        rcases List.mem_cons.mp ho with rfl | ho
        · trivial
        · exact hfiles o (by simpa using ho)
      · simpa [renameOutcomes, renameOutcome?, Except.toBool] using hnone

/-- An entry is reported as committed exactly when all of its renamings take effect. -/
theorem allRenamed_cons {outcomes : List Bool} (h : EntryEvents entry.renames t r) :
    allRenamed (entry :: entries) (renameOutcomes t ++ outcomes) =
      r.isOk :: allRenamed entries outcomes := by
  cases r with
  | ok u =>
    obtain ⟨houtcomes, -⟩ := h.committed rfl
    simp [allRenamed, houtcomes, Result.isOk]
  | error e =>
    obtain ⟨k, hk, houtcomes⟩ := h.failed e rfl
    have htake : ((List.replicate k true ++ [false] ++ outcomes).take
        entry.renames.length).takeWhile id = List.replicate k true := by
      rw [List.append_assoc, List.take_append, List.takeWhile_append]
      obtain ⟨m, hm⟩ := Nat.exists_eq_add_of_lt hk
      simp [hm, Nat.add_assoc]
    simp only [allRenamed, houtcomes, htake, List.length_replicate, Result.isOk]
    rw [if_neg (by omega)]
    simp [List.drop_append]

theorem emits_entries (h : (entries.mapM renameEntry).Emits t results) :
    (∀ o ∈ t, OnFiles o) ∧ allRenamed entries (renameOutcomes t) = results.map Result.isOk ∧
      ∀ (i : Nat) (entry : BatchEntry), entries[i]? = some entry → results[i]? = some (.ok ()) →
        ∀ rename ∈ entry.renames, renamed rename ∈ t := by
  induction entries generalizing t results with
  | nil =>
    obtain ⟨rfl, rfl⟩ := Program.emits_mapM_nil.mp h
    simp [allRenamed]
  | cons entry entries ih =>
    obtain ⟨before, after, r, rest, rfl, rfl, hentry, hentries⟩ := Program.emits_mapM_cons.mp h
    have hevents := emits_renameEach hentry
    obtain ⟨hfiles, houtcomes, hrenamed⟩ := ih hentries
    refine ⟨?_, ?_, ?_⟩
    · intro o ho
      rcases List.mem_append.mp ho with ho | ho
      · exact hevents.onFiles o ho
      · exact hfiles o ho
    · rw [renameOutcomes_append, allRenamed_cons hevents, houtcomes, List.map_cons]
    · intro i x hx hr rename hrename
      cases i with
      | zero =>
        simp only [List.getElem?_cons_zero, Option.some.injEq] at hx hr
        subst hx hr
        exact List.mem_append_left _ ((hevents.committed rfl).2 rename hrename)
      | succ i =>
        simp only [List.getElem?_cons_succ] at hx hr
        exact List.mem_append_right _ (hrenamed i x hx hr rename hrename)

variable {syncDirAfterBatch : Bool} {directory : String}

theorem emits_syncBatchDirectory {u : Unit}
    (h : (syncBatchDirectory syncDirAfterBatch directory).Emits t u) :
    (¬(syncDirAfterBatch = true ∧ directory ≠ "") ∧ t = []) ∨
      ((syncDirAfterBatch = true ∧ directory ≠ "") ∧ ∃ r, t = [⟨.syncDirectory directory, r⟩]) := by
  unfold syncBatchDirectory at h
  split at h
  · rename_i hflush
    obtain ⟨r, rest, rfl, rfl, -⟩ := h
    right
    exact ⟨by simpa using hflush, r, rfl⟩
  · rename_i hflush
    left
    exact ⟨by simpa using hflush, h.1⟩

/-- The flush of the file system failed, or the entries were renamed after it and the
directory of the batch was flushed last. -/
theorem emits_commitBatch (h : (commitBatch syncDirAfterBatch entries).Emits t results) :
    (∃ e unlinks, t = ⟨.syncFilesystem (batchDirectory entries), .error e⟩ :: unlinks ∧
      (unlinkAll (entries.flatMap BatchEntry.tmps)).Emits unlinks () ∧
      results = entries.map fun _ => .error e) ∨
    ∃ middle last, t = ⟨.syncFilesystem (batchDirectory entries), .ok ()⟩ :: (middle ++ last) ∧
      (entries.mapM renameEntry).Emits middle results ∧
      (syncBatchDirectory syncDirAfterBatch (batchDirectory entries)).Emits last () := by
  obtain ⟨reply, rest, rfl, hrest⟩ := Program.emits_call_bind.mp h
  cases reply with
  | error e =>
    obtain ⟨unlinks, u, last, rfl, hunlinks, rfl, rfl⟩ := Program.emits_bind.mp hrest
    left
    exact ⟨e, unlinks, by simp, hunlinks, rfl⟩
  | ok u =>
    obtain ⟨middle, results, last, rfl, hentries, hlast⟩ := Program.emits_bind.mp hrest
    obtain ⟨last, u, none, rfl, hsync, rfl, rfl⟩ := Program.emits_bind.mp hlast
    right
    exact ⟨middle, last, by simp, hentries, hsync⟩

/-- Every entry gets a result. -/
theorem length_commitBatch (h : (commitBatch syncDirAfterBatch entries).Emits t results) :
    results.length = entries.length := by
  rcases emits_commitBatch h with ⟨e, unlinks, -, -, rfl⟩ | ⟨middle, last, -, hentries, -⟩
  · rw [List.length_map]
  · exact Program.emits_mapM_length hentries

end Events

/-! ## The order of a batch -/

section Order
variable {t : Trace posix} {entries : List BatchEntry} {results : List (Result Unit)}
variable {syncDirAfterBatch : Bool}

theorem not_syncs_of_onFiles {t : Trace posix} (h : ∀ o ∈ t, OnFiles o) (directory : String)
    (r : Result Unit) : ⟨.syncFilesystem directory, r⟩ ∉ t ∧ ⟨.syncDirectory directory, r⟩ ∉ t :=
  ⟨fun hmem => h _ hmem, fun hmem => h _ hmem⟩

theorem not_renamed_of_outcomes {t : Trace posix} (h : renameOutcomes t = []) {tmp final : String}
    {r : Sys Unit} : ⟨.rename tmp final, r⟩ ∉ t := by
  intro hmem
  have hoccurs : Except.toBool r ∈ renameOutcomes t := List.mem_filterMap.mpr ⟨_, hmem, rfl⟩
  rw [h] at hoccurs
  cases hoccurs

theorem renamesAfterSync (h : (commitBatch syncDirAfterBatch entries).Emits t results) :
    RenamesAfterSync t := by
  intro before after tmp final r ht
  rcases emits_commitBatch h with ⟨e, unlinks, rfl, hunlinks, -⟩ | ⟨middle, last, rfl, -, -⟩
  · have hmem : ⟨.rename tmp final, r⟩ ∈ unlinks := by
      have htotal : ⟨.rename tmp final, r⟩ ∈ before ++ ⟨.rename tmp final, r⟩ :: after := by simp
      rw [← ht] at htotal
      simpa using htotal
    exact absurd hmem (not_renamed_of_outcomes (emits_unlinkAll hunlinks).1)
  · cases before with
    | nil => simp at ht
    | cons first before =>
      simp only [List.cons_append, List.cons.injEq] at ht
      exact ⟨batchDirectory entries, by simp [← ht.1]⟩

theorem emits_failed (h : (commitBatch syncDirAfterBatch entries).Emits t results)
    {directory : String} {e : Error} (hfailed : ⟨.syncFilesystem directory, .error e⟩ ∈ t) :
    renameOutcomes t = [] ∧ ∀ i : Nat, results[i]? ≠ some (.ok ()) := by
  rcases emits_commitBatch h with ⟨e, unlinks, rfl, hunlinks, rfl⟩ | ⟨middle, last, rfl, hmid, hlast⟩
  · constructor
    · rw [← List.singleton_append, renameOutcomes_append, (emits_unlinkAll hunlinks).1]
      rfl
    · intro i
      rw [List.getElem?_map]
      cases entries[i]? <;> simp
  · have hmiddle := (not_syncs_of_onFiles (emits_entries hmid).1 directory (.error e)).1
    rcases emits_syncBatchDirectory hlast with ⟨-, rfl⟩ | ⟨-, r', rfl⟩ <;>
      simp [hmiddle] at hfailed

theorem noRenameUnsynced (h : (commitBatch syncDirAfterBatch entries).Emits t results) :
    NoRenameUnsynced t :=
  fun _ _ hfailed _ _ _ => not_renamed_of_outcomes (emits_failed h hfailed).1

/-- The flush of the file system succeeds in this trace. -/
def Renaming (t : Trace posix) : Prop :=
  ∀ directory e, ⟨.syncFilesystem directory, .error e⟩ ∉ t

theorem emits_renaming (h : (commitBatch syncDirAfterBatch entries).Emits t results)
    (hrenaming : Renaming t) :
    ∃ middle last, t = ⟨.syncFilesystem (batchDirectory entries), .ok ()⟩ :: (middle ++ last) ∧
      (entries.mapM renameEntry).Emits middle results ∧
      (syncBatchDirectory syncDirAfterBatch (batchDirectory entries)).Emits last () := by
  rcases emits_commitBatch h with ⟨e, unlinks, rfl, -, -⟩ | hsynced
  · exact absurd List.mem_cons_self (hrenaming _ e)
  · exact hsynced

/-- The flushes of directories in a batch: only of its own directory, as its last call. -/
theorem directorySynced_iff (h : (commitBatch syncDirAfterBatch entries).Emits t results)
    (hrenaming : Renaming t) {directory : String} : directorySynced directory ∈ t ↔
      directory = batchDirectory entries ∧ FlushesDirectory syncDirAfterBatch directory t := by
  obtain ⟨middle, last, rfl, hmid, hlast⟩ := emits_renaming h hrenaming
  have hmiddle : ∀ r, ⟨.syncDirectory directory, r⟩ ∉ middle := fun r =>
    (not_syncs_of_onFiles (emits_entries hmid).1 directory r).2
  simp only [directorySynced, FlushesDirectory, List.mem_cons, List.mem_append, hmiddle]
  rcases emits_syncBatchDirectory hlast with ⟨hno, rfl⟩ | ⟨⟨hopt, hdir⟩, r, rfl⟩
  · constructor
    · intro hmem
      simp at hmem
    · rintro ⟨rfl, hopt, hdir, -⟩
      exact absurd ⟨hopt, hdir⟩ hno
  · cases r with
    | ok u =>
      simp
      rintro rfl
      exact ⟨hopt, hdir⟩
    | error e =>
      simp
      rintro rfl _ _
      rfl

/-- Once the flush of the file system has succeeded, the entries reported as committed are
those all of whose renamings took effect. -/
theorem allRenamed_iff (h : (commitBatch syncDirAfterBatch entries).Emits t results)
    (hrenaming : Renaming t) {i : Nat} :
    (allRenamed entries (renameOutcomes t))[i]? = some true ↔ results[i]? = some (.ok ()) := by
  obtain ⟨middle, last, rfl, hmid, hlast⟩ := emits_renaming h hrenaming
  have hnone : renameOutcomes last = [] := by
    rcases emits_syncBatchDirectory hlast with ⟨-, rfl⟩ | ⟨-, r, rfl⟩ <;> rfl
  have houtcomes : renameOutcomes (⟨.syncFilesystem (batchDirectory entries), .ok ()⟩ ::
      (middle ++ last)) = renameOutcomes middle := by
    rw [← List.singleton_append, renameOutcomes_append, renameOutcomes_append, hnone]
    simp [renameOutcomes, renameOutcome?]
  rw [houtcomes, (emits_entries hmid).2.1, List.getElem?_map]
  cases hr : results[i]? with
  | none => simp
  | some r => cases r <;> simp

/-- A committed entry whose files lie in the directory that is flushed is durable. -/
theorem durable_of_shared {i : Nat} {entry : BatchEntry}
    (h : (commitBatch syncDirAfterBatch entries).Emits t results) (hrenaming : Renaming t)
    (hentry : entries[i]? = some entry) (hresult : results[i]? = some (.ok ()))
    (hshared : ∀ rename ∈ entry.renames, parentDirectory rename.finalPath = batchDirectory entries ∧
      FlushesDirectory syncDirAfterBatch (batchDirectory entries) t) : Durable t entry := by
  intro rename hrename
  obtain ⟨hdir, hflush⟩ := hshared rename hrename
  have hsynced := (directorySynced_iff h hrenaming).mpr ⟨rfl, hflush⟩
  obtain ⟨middle, last, rfl, hmid, hlast⟩ := emits_renaming h hrenaming
  have hmiddle := (not_syncs_of_onFiles (emits_entries hmid).1 (batchDirectory entries) (.ok ())).2
  have hlast : directorySynced (batchDirectory entries) ∈ last := by
    simpa [directorySynced, hmiddle] using hsynced
  obtain ⟨before, after, rfl⟩ := List.append_of_mem
    ((emits_entries hmid).2.2 i entry hentry hresult rename hrename)
  refine ⟨⟨.syncFilesystem (batchDirectory entries), .ok ()⟩ :: before, after ++ last, by simp, ?_⟩
  rw [hdir]
  exact List.mem_append_right _ hlast

/-- **The order of a batch.** All renamings follow a successful flush of the file system, and
every entry reported as committed has its own directories flushed after its renamings, if
and only if the entries that are renamed share the directory that is flushed. -/
theorem commitBatch_durable_iff (h : (commitBatch syncDirAfterBatch entries).Emits t results) :
    (RenamesAfterSync t ∧ NoRenameUnsynced t ∧ CommittedDurable t entries results) ↔
      SharesDirectory syncDirAfterBatch entries t := by
  by_cases hfailed : ∃ directory e, ⟨.syncFilesystem directory, .error e⟩ ∈ t
  · refine ⟨fun _ => .inl hfailed, fun _ => ⟨renamesAfterSync h, noRenameUnsynced h, ?_⟩⟩
    intro i entry _ hresult
    obtain ⟨directory, e, hmem⟩ := hfailed
    exact absurd hresult ((emits_failed h hmem).2 i)
  · have hrenaming : Renaming t := fun directory e hmem => hfailed ⟨directory, e, hmem⟩
    constructor
    · rintro ⟨-, -, hdurable⟩
      right
      intro i entry hentry hrenamed rename hrename
      have hresult := (allRenamed_iff h hrenaming).mp hrenamed
      obtain ⟨before, after, ht, hsynced⟩ := hdurable i entry hentry hresult rename hrename
      have hmem : directorySynced (parentDirectory rename.finalPath) ∈ t := by
        rw [ht]
        exact List.mem_append_right _ (List.mem_cons_of_mem _ hsynced)
      obtain ⟨hdir, hflush⟩ := (directorySynced_iff h hrenaming).mp hmem
      exact ⟨hdir, hdir ▸ hflush⟩
    · intro hshare
      refine ⟨renamesAfterSync h, noRenameUnsynced h, fun i entry hentry hresult => ?_⟩
      refine durable_of_shared h hrenaming hentry hresult (hshare.resolve_left hfailed i entry hentry ?_)
      exact (allRenamed_iff h hrenaming).mpr hresult

/-- An object and its sidecar, in a directory of their own. -/
def objectIn (directory : String) : BatchEntry where
  renames := [⟨directory ++ "/f.tmp.0", directory ++ "/f"⟩,
    ⟨directory ++ "/f.fssmeta.tmp.1", directory ++ "/f.fssmeta"⟩]

/-- The events of a batch in which every call succeeds. -/
def smoothTrace (entries : List BatchEntry) : Trace posix :=
  ⟨.syncFilesystem (batchDirectory entries), .ok ()⟩ ::
    (entries.flatMap fun entry => entry.renames.map renamed) ++
      [directorySynced (batchDirectory entries)]

theorem lone_object_durable :
    RenamesAfterSync (smoothTrace [objectIn "/d/c/u"]) ∧
      NoRenameUnsynced (smoothTrace [objectIn "/d/c/u"]) ∧
      CommittedDurable (smoothTrace [objectIn "/d/c/u"]) [objectIn "/d/c/u"] [.ok ()] := by
  have hrun : (commitBatch true [objectIn "/d/c/u"]).Emits (smoothTrace [objectIn "/d/c/u"])
      [.ok ()] := ⟨_, _, rfl, _, _, rfl, _, _, rfl, _, _, rfl, rfl, rfl⟩
  refine (commitBatch_durable_iff hrun).mpr (.inr fun i entry hentry _ rename hrename => ?_)
  have hobject : entry = objectIn "/d/c/u" := by
    simpa using List.mem_of_getElem? hentry
  subst hobject
  have hdirectories : ∀ rename ∈ (objectIn "/d/c/u").renames,
      parentDirectory rename.finalPath = batchDirectory [objectIn "/d/c/u"] := by decide
  refine ⟨hdirectories rename hrename, rfl, by decide, fun e => ?_⟩
  simp [smoothTrace, directorySynced, renamed]

/-- Two objects of different directories: all calls succeed and both are reported as
committed, but the directory of the second is never flushed. -/
theorem second_directory_never_synced :
    ∃ t, (commitBatch true [objectIn "/d/c/u", objectIn "/d/c/v"]).Emits t [.ok (), .ok ()] ∧
      ¬CommittedDurable t [objectIn "/d/c/u", objectIn "/d/c/v"] [.ok (), .ok ()] := by
  refine ⟨smoothTrace [objectIn "/d/c/u", objectIn "/d/c/v"],
    ⟨_, _, rfl, _, _, rfl, _, _, rfl, _, _, rfl, _, _, rfl, _, _, rfl, rfl, rfl⟩, fun hdurable => ?_⟩
  obtain ⟨before, after, ht, hsynced⟩ :=
    hdurable 1 (objectIn "/d/c/v") rfl rfl ⟨"/d/c/v/f.tmp.0", "/d/c/v/f"⟩ (by simp [objectIn])
  have hmem : directorySynced "/d/c/v" ∈ smoothTrace [objectIn "/d/c/u", objectIn "/d/c/v"] := by
    have hparent : parentDirectory "/d/c/v/f" = "/d/c/v" := by decide
    rw [ht]
    exact List.mem_append_right _ (List.mem_cons_of_mem _ (hparent ▸ hsynced))
  have hdirectory : batchDirectory [objectIn "/d/c/u", objectIn "/d/c/v"] = "/d/c/u" := by decide
  simp [smoothTrace, directorySynced, renamed, hdirectory] at hmem

end Order

end FileService.Posix
