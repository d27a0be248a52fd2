import FileService.Postgres.VersionChains

/-!
# The calls of the metadata repository

No other caller changes the transaction of a caller, and a version that has been
stored as ready is kept. With that every statement of a call keeps the version
chains, and an update that has succeeded has replaced what it had read.
-/
namespace FileService.Postgres.Metadata
open FileService.Common FileService.Domain FileService.Infra FileService.Interaction
open FileService.Sqlite.MetadataRepository (validateRecord)

variable {ι : Type} [DecidableEq ι] {i j : ι} {s s' : Database ι}

/-! ## What others leave -/

/-- Nothing that a caller knows is lost: neither of its transaction nor of what is kept. -/
structure Leaves (i : ι) (s s' : Database ι) : Prop where
  transactions : ∀ t, s'.transactions i = some t → s.transactions i = some t
  held : ∀ row, row.state = .ready → Held s row → Held s' row
  removed : ∀ key ∈ s.removed, key ∈ s'.removed
  installed : ∀ e ∈ s.installed, e ∈ s'.installed

omit [DecidableEq ι] in
theorem Leaves.refl (i : ι) (s : Database ι) : Leaves i s s :=
  ⟨fun _ h => h, fun _ _ h => h, fun _ h => h, fun _ h => h⟩

/-- Statements after which the own transaction is another one. -/
def Statement.opens : Statement → Bool
  | .begin | .clearLatest .. | .insertVersion _ => true
  | _ => false

theorem installed_mono {q : Statement} {a : q.Answer} (hrun : Database.run j s q a s')
    {e : Installed ι} (he : e ∈ s.installed) : e ∈ s'.installed := by
  cases q with
  | claimInsert row =>
    rcases hrun with ⟨-, table, -, rfl⟩ | ⟨-, rfl, -⟩ <;> exact he
  | reclaimStaleClaiming p olderThan sources limit =>
    obtain ⟨victims, -, -, -, rfl⟩ := hrun
    exact he
  | commit =>
    obtain ⟨t, table, -, -, -, rfl⟩ := hrun
    exact List.mem_append_left _ he
  | deleteAllVersions p k =>
    obtain ⟨victims, -, -, rfl⟩ := hrun
    unfold Database.noteRemoval
    split_ifs <;> exact he
  | begin =>
    obtain rfl : s' = s.withTransaction j (some {}) := hrun
    exact he
  | clearLatest p k =>
    obtain ⟨t, -, ⟨-, rfl⟩ | ⟨c, -, -, -, rfl⟩⟩ := hrun <;> exact he
  | insertVersion row =>
    obtain ⟨t, table, -, -, rfl⟩ := hrun
    exact he
  | rollback =>
    obtain rfl : s' = s.withTransaction j none := hrun
    exact he
  | borrow =>
    obtain rfl : s' = s := hrun
    exact he
  | _ =>
    obtain ⟨-, rfl⟩ := hrun
    exact he

theorem transactions_mono {q : Statement} {a : q.Answer} (hrun : Database.run j s q a s')
    (hq : i = j → q.opens = false) {t : Transaction} (ht : s'.transactions i = some t) :
    s.transactions i = some t := by
  have hset : ∀ {t'}, (i = j → t' = none) → (s.withTransaction j t').transactions i = some t →
      s.transactions i = some t := by
    intro t' hnone hs
    rcases transactions_withTransaction hs with hs | ⟨hij, hnew⟩
    · exact hs
    · rw [hnone hij] at hnew
      cases hnew
  cases q with
  | claimInsert row =>
    rcases hrun with ⟨-, table, -, rfl⟩ | ⟨-, rfl, -⟩ <;> exact ht
  | reclaimStaleClaiming p olderThan sources limit =>
    obtain ⟨victims, -, -, -, rfl⟩ := hrun
    exact ht
  | commit =>
    obtain ⟨t', table, -, -, -, rfl⟩ := hrun
    exact hset (fun _ => rfl) ht
  | deleteAllVersions p k =>
    obtain ⟨victims, -, -, rfl⟩ := hrun
    unfold Database.noteRemoval at ht
    split_ifs at ht <;> exact ht
  | begin =>
    obtain rfl : s' = s.withTransaction j (some {}) := hrun
    exact hset (fun hij => absurd (hq hij) (by simp [Statement.opens])) ht
  | clearLatest p k =>
    obtain ⟨t', -, ⟨-, rfl⟩ | ⟨c, -, -, -, rfl⟩⟩ := hrun
    · exact ht
    · exact hset (fun hij => absurd (hq hij) (by simp [Statement.opens])) ht
  | insertVersion row =>
    obtain ⟨t', table, -, -, rfl⟩ := hrun
    exact hset (fun hij => absurd (hq hij) (by simp [Statement.opens])) ht
  | rollback =>
    obtain rfl : s' = s.withTransaction j none := hrun
    exact hset (fun _ => rfl) ht
  | borrow =>
    obtain rfl : s' = s := hrun
    exact ht
  | _ =>
    obtain ⟨-, rfl⟩ := hrun
    exact ht

theorem leaves_run {q : Statement} {a : q.Answer} (hrun : Database.run j s q a s')
    (hq : i = j → q.opens = false) : Leaves i s s' where
  transactions _ ht := transactions_mono hrun hq ht
  held _ hready h := h.run hready hrun
  removed _ h := by
    by_contra hnot
    exact removed_run hrun hnot h
  installed _ h := installed_mono hrun h

theorem leaves_loses (h : s.Loses s') : Leaves i s s' := by
  obtain ⟨j⟩ := h
  refine ⟨fun t ht => ?_, fun _ _ h => h, fun _ h => h, fun _ h => h⟩
  rcases transactions_withTransaction ht with hs | ⟨-, hnew⟩
  · exact hs
  · cases hnew

theorem leaves_exec {call : Call} {r : call.Reply} (hexec : Database.Exec j s call r s')
    (hij : j ≠ i) : Leaves i s s' := by
  cases hexec with
  | now t => exact .refl i s
  | failed e hq => exact .refl i s
  | done hrun => exact leaves_run hrun fun h => absurd h.symm hij
  | lost e hrun => exact leaves_run hrun fun h => absurd h.symm hij

theorem Sound.loses (h : Sound s) (hloses : s.Loses s') : Sound s' := by
  obtain ⟨j⟩ := hloses
  refine ⟨h.chains, fun i t ht => ?_, h.installed, h.distinct⟩
  rcases transactions_withTransaction ht with hs | ⟨-, hnew⟩
  · have hold := h.transactions i t hs
    exact ⟨hold.cleared, hold.inserted⟩
  · cases hnew

/-! ## Rules -/

/-- An assertion about the own transaction, and about what is kept or was seen. -/
def Closed (i : ι) (P : Component.Assertion (Database ι)) : Prop :=
  ∀ seen seen' s s', seen ⊆ seen' → Leaves i s s' → P seen s → P seen' s'

theorem Closed.stable {P : Component.Assertion (Database ι)} (h : Closed i P) :
    (repository ι).Stable Sound i P where
  others seen hij _ hexec hP := h seen seen _ _ (List.Subset.refl _) (leaves_exec hexec hij) hP
  env seen _ hloses hP := h seen seen _ _ (List.Subset.refl _) (leaves_loses hloses) hP

/-- What an answer tells; of a failure nothing is known. -/
def told {α : Type} (R : α → Component.Assertion (Database ι)) (r : Result α) :
    Component.Assertion (Database ι) :=
  fun seen s => ∀ a, r = .ok a → R a seen s

section Rules
variable {α : Type} {P : Component.Assertion (Database ι)} {Q : α → Component.Assertion (Database ι)}

/-- The rule of a statement. -/
theorem outlines_query {q : Statement} {next : Result q.Answer → Program sql α}
    (R : q.Answer → Component.Assertion (Database ι)) (hR : ∀ a, Closed i (R a))
    (hminds : ∀ seen s, P seen s → Minds i s q)
    (hstep : ∀ seen s a s', Sound s → P seen s → Database.run i s q a s' → R a (s' :: seen) s')
    (hok : ∀ a, (repository ι).Outlines Sound i (next (.ok a)) (R a) Q)
    (herror : ∀ e, (repository ι).Outlines Sound i (next (.error e)) (fun _ _ => True) Q) :
    (repository ι).Outlines Sound i (query q >>= next) P Q := by
  refine Component.outlines_call (told R) (fun r => Closed.stable ?_) ?_ fun r => ?_
  · exact fun seen seen' s s' hsub hleaves h a ha => hR a seen seen' s s' hsub hleaves (h a ha)
  · intro seen s r s' hsound hP hexec
    cases hexec with
    | done hrun =>
      refine ⟨hsound.run (hminds seen s hP) hrun, ?_⟩
      rintro _ ⟨⟩
      exact hstep seen s _ s' hsound hP hrun
    | failed e hq => exact ⟨hsound, by rintro _ ⟨⟩⟩
    | lost e hrun => exact ⟨hsound.run (hminds seen s hP) hrun, by rintro _ ⟨⟩⟩
  · cases r with
    | ok a => exact (hok a).weaken fun seen s _ h => h a rfl
    | error e => exact (herror e).weaken fun _ _ _ _ => trivial

theorem outlines_now {next : Int → Program sql α} (hP : Closed i P)
    (hnext : ∀ t, (repository ι).Outlines Sound i (next t) P Q) :
    (repository ι).Outlines Sound i (now >>= next) P Q := by
  refine Component.outlines_call (fun _ => P) (fun _ => hP.stable) ?_ hnext
  intro seen s r s' hsound h hexec
  cases hexec with
  | now t => exact ⟨hsound, hP seen _ s s (List.subset_cons_self ..) (.refl i s) h⟩

/-- Statements that ask nothing of the caller, and claims. -/
def Mild : Call → Prop
  | .now => True
  | .statement (.claimInsert row) => row.version = 1 ∧ row.isLatest = true
  | .statement .begin | .statement (.clearLatest ..) | .statement (.insertVersion _)
  | .statement .commit => False
  | .statement _ => True

omit [DecidableEq ι] in
theorem minds_mild {q : Statement} (h : Mild (.statement q)) : Minds i s q := by
  cases q with
  | claimInsert row => exact h
  | clearLatest p k => exact h.elim
  | insertVersion row => exact h.elim
  | commit => exact h.elim
  | _ => exact trivial

theorem outlines_mild {p : Program sql α} {R : α → Prop} (hp : p.Uses Mild R) :
    (repository ι).Outlines Sound i p (fun _ _ => True) fun a _ _ => R a := by
  have hclosed : Closed i fun (_ : List (Database ι)) (_ : Database ι) => True :=
    fun _ _ _ _ _ _ _ => trivial
  refine (Component.outlines_relies (A := fun _ _ => True) hp.relies hclosed.stable ?_).strengthen
    fun _ _ _ _ h => h.1
  intro call seen s r s' hmild hsound _ hexec
  refine ⟨?_, trivial, trivial⟩
  cases hexec with
  | now t => exact hsound
  | failed e hq => exact hsound
  | done hrun => exact hsound.run (minds_mild hmild) hrun
  | lost e hrun => exact hsound.run (minds_mild hmild) hrun

end Rules

/-! ## What updates and markings achieve -/

/-- The key of a version in the record of commits. -/
def Installed.key (e : Installed ι) : String × String × Int := (e.partition, e.id, e.version)

/-- The latest version of a record as it is read: there is no later one, and nobody has installed
the next one. -/
structure Reads (partition recordId : String) (before : Database ι) (row : Row) : Prop where
  found : row ∈ before.table.rows
  latest : row.isLatestReadyOf partition recordId = true
  highest : (partition, recordId) ∉ before.removed →
    ∀ v, HoldsVersion before partition recordId v → v ≤ row.version
  next : (partition, recordId) ∉ before.removed →
    ∀ e ∈ before.installed, e.key ≠ (partition, recordId, row.version + 1)

/-- Unless the record has been deleted, the update has installed the version after the one that
it had read, and both are kept. -/
structure Replaced (i : ι) (partition : String) (record stored : FileMetadataRecord)
    (seen : List (Database ι)) (s : Database ι) : Prop where
  read : ∃ before ∈ seen, ∃ row existing, Reads partition record.id before row ∧
    rowToRecord row = .ok existing ∧ existing.fileSource = record.fileSource ∧
      stored = nextVersion record existing ∧ stored.version = row.version + 1 ∧ Held s row
  kept : ∃ createdAt, Held s (versionRow partition stored record.fileSource createdAt .ready)
  installed : ⟨i, partition, record.id, stored.version⟩ ∈ s.installed

/-- The claim is ready with what was given for it. -/
def Marked (partition recordId : String) (version : Int) (record marked : FileMetadataRecord)
    (s : Database ι) : Prop :=
  ∃ row, row.isVersionOf partition recordId version = true ∧ row.state = .ready ∧
    row.fileSource = record.fileSource ∧
      row.data = toJson { record with id := recordId, version := version } ∧
        rowToRecord row = .ok marked ∧ Held s row

section Update
variable {partition recordId : String} {record existing stored : FileMetadataRecord}

theorem version_of_rowToRecord {row : Row} (h : rowToRecord row = .ok existing) :
    existing.version = row.version := by
  unfold rowToRecord at h
  cases hparse : parseFileMetadataRecord row.data with
  | error e =>
    rw [hparse] at h
    cases h
  | ok parsed =>
    rw [hparse] at h
    cases h
    rfl

/-- The version that was read is kept. -/
def Ahead (partition recordId : String) (existing : FileMetadataRecord) :
    Component.Assertion (Database ι) :=
  fun seen s => ∃ before ∈ seen, ∃ row, Reads partition recordId before row ∧
    rowToRecord row = .ok existing ∧ before.removed ⊆ s.removed ∧ Held s row

omit [DecidableEq ι] in
theorem Reads.ready {before : Database ι} {row : Row} (h : Reads partition recordId before row) :
    row.isOf partition recordId = true ∧ row.state = .ready := by
  have hlatest := h.latest
  simp only [Row.isLatestReadyOf, Bool.and_eq_true, beq_iff_eq] at hlatest
  exact ⟨hlatest.1.1, hlatest.2⟩

omit [DecidableEq ι] in
theorem closed_ahead : Closed i (Ahead partition recordId existing) := by
  rintro seen seen' s s' hsub hleaves ⟨before, hbefore, row, hreads, hexisting, hremoved, hheld⟩
  exact ⟨before, hsub hbefore, row, hreads, hexisting,
    fun key hkey => hleaves.removed key (hremoved hkey), hleaves.held row hreads.ready.2 hheld⟩

theorem Ahead.run {seen : List (Database ι)} (h : Ahead partition recordId existing seen s)
    {q : Statement} {a : q.Answer} (hrun : Database.run j s q a s') :
    Ahead partition recordId existing (s' :: seen) s' := by
  obtain ⟨before, hbefore, row, hreads, hexisting, hremoved, hheld⟩ := h
  refine ⟨before, List.mem_cons_of_mem _ hbefore, row, hreads, hexisting, fun key hkey => ?_,
    hheld.run hreads.ready.2 hrun⟩
  by_contra hnot
  exact removed_run hrun hnot (hremoved hkey)

omit [DecidableEq ι] in
theorem Ahead.holdsVersion {seen : List (Database ι)}
    (h : Ahead partition recordId existing seen s) :
    HoldsVersion s partition recordId existing.version := by
  obtain ⟨before, -, row, hreads, hexisting, -, hheld⟩ := h
  obtain ⟨hof, hready⟩ := hreads.ready
  exact ⟨row, isVersionOf_iff.mpr ⟨hof, (version_of_rowToRecord hexisting).symm⟩, hready, hheld⟩

omit [DecidableEq ι] in
/-- A chain ends with the version that is found. -/
theorem Sound.reads (h : Sound s) {row : Row}
    (hfound : s.table.rows.find? (Row.isLatestReadyOf partition recordId) = some row) :
    Reads partition recordId s row := by
  have hrow := List.mem_of_find?_eq_some hfound
  have hlatest := List.find?_some hfound
  have hhighest : (partition, recordId) ∉ s.removed →
      ∀ v, HoldsVersion s partition recordId v → v ≤ row.version := by
    intro hremoved v hv
    simp only [Row.isLatestReadyOf, Bool.and_eq_true, beq_iff_eq] at hlatest
    obtain ⟨n, hchain⟩ := h.chains partition recordId hremoved
    have hn := (hchain.latest row hrow hlatest.1.1).mp hlatest.1.2
    have hbounds := hchain.holdsVersion hv hremoved
    omega
  refine ⟨hrow, hlatest, hhighest, fun hremoved e he hkey => ?_⟩
  simp only [Installed.key, Prod.mk.injEq] at hkey
  obtain ⟨hp, hid, hv⟩ := hkey
  have hheld := h.installed e he
  rw [hp, hid, hv] at hheld
  have hbound := hhighest hremoved _ hheld
  omega

/-- The record is read. -/
theorem outlines_findLatestById : (repository ι).Outlines Sound i
    (findLatestById partition recordId) (fun _ _ => True) fun reply seen s =>
      ∀ existing, reply = .ok existing → Ahead partition recordId existing seen s := by
  unfold findLatestById
  refine outlines_query (fun found seen s => ∀ row existing, found = some row →
    rowToRecord row = .ok existing → Ahead partition recordId existing seen s) ?_
    (fun _ _ _ => trivial) ?_ ?_ ?_
  · exact fun found seen seen' s s' hsub hleaves h row existing hfound hexisting =>
      closed_ahead seen seen' s s' hsub hleaves (h row existing hfound hexisting)
  · rintro seen s found s' hsound - ⟨rfl, rfl⟩ row existing hfound hexisting
    exact ⟨s', List.mem_cons_self .., row, hsound.reads hfound, hexisting, List.Subset.refl _,
      .inr ⟨row.isLatest, List.mem_of_find?_eq_some hfound⟩⟩
  · intro found
    apply Component.outlines_pure
    intro seen s _ h existing hexisting
    cases found with
    | none => cases hexisting
    | some row => exact h row existing rfl hexisting
  · intro e
    apply Component.outlines_pure
    rintro seen s - - existing ⟨⟩

theorem outlines_getById : (repository ι).Outlines Sound i
    (getById partition recordId) (fun _ _ => True) fun reply seen s =>
      ∀ existing, reply = .ok existing → Ahead partition recordId existing seen s := by
  have hrefused : ∀ (e : Error) (P : Component.Assertion (Database ι)), (repository ι).Outlines
      Sound i (pure (.error e : Result FileMetadataRecord)) P fun reply seen s =>
        ∀ existing, reply = .ok existing → Ahead partition recordId existing seen s := by
    intro e P
    apply Component.outlines_pure
    rintro seen s - - existing ⟨⟩
  unfold getById
  split_ifs
  · exact hrefused _ _
  · exact outlines_query (fun _ _ _ => True) (fun _ _ _ _ _ _ _ _ => trivial)
      (fun _ _ _ => trivial) (fun _ _ _ _ _ _ _ => trivial) (fun _ => outlines_findLatestById)
      fun e => hrefused e _

theorem uses_rolledBack (e : Error) : (rolledBack e).Uses Mild fun reply => reply = .error e :=
  ⟨trivial, fun _ => rfl⟩

theorem outlines_rolledBack (e : Error) {P : Component.Assertion (Database ι)} :
    (repository ι).Outlines Sound i (rolledBack e) P fun reply seen s =>
      ∀ stored, reply = .ok stored → Replaced i partition record stored seen s := by
  refine ((outlines_mild (uses_rolledBack e)).weaken fun _ _ _ _ => trivial).strengthen ?_
  rintro reply seen s - rfl stored ⟨⟩

/-- The row that the update inserts. -/
def nextRow (partition : String) (record existing : FileMetadataRecord) (createdAt : Int) : Row :=
  versionRow partition (nextVersion record existing) record.fileSource createdAt .ready

/-- The transaction has cleared a row of the record. -/
def HasCleared (i : ι) (partition : String) (record : FileMetadataRecord) (s : Database ι) : Prop :=
  ∀ t, s.transactions i = some t →
    ∃ c, t.cleared = some c ∧ c.isOf partition record.id = true

theorem outlines_commitVersion (hsource : existing.fileSource = record.fileSource)
    (createdAt : Int) : (repository ι).Outlines Sound i
      (commitVersion (nextVersion record existing))
      (fun seen s => Ahead partition record.id existing seen s ∧ ∀ t, s.transactions i = some t →
        t.inserted = some (nextRow partition record existing createdAt))
      fun reply seen s =>
        ∀ stored, reply = .ok stored → Replaced i partition record stored seen s := by
  unfold commitVersion
  refine outlines_query (fun _ seen s => Replaced i partition record
    (nextVersion record existing) seen s) ?_ ?_ ?_ ?_ ?_
  · rintro - seen seen' s s' hsub hleaves h
    obtain ⟨before, hbefore, row, known, hreads, hknown, hsame, hstored, hversion, hheld⟩ := h.read
    obtain ⟨t, ht⟩ := h.kept
    exact ⟨⟨before, hsub hbefore, row, known, hreads, hknown, hsame, hstored, hversion,
      hleaves.held row hreads.ready.2 hheld⟩, ⟨t, hleaves.held _ rfl ht⟩,
      hleaves.installed _ h.installed⟩
  · rintro seen s ⟨-, hinserted⟩ t ht
    simp [hinserted t ht]
  · rintro seen s a s' hsound ⟨hahead, hinserted⟩ hrun
    obtain ⟨before, hbefore, row, hreads, hexisting, -, hheld⟩ := hahead.run hrun
    obtain ⟨t, table, ht, -, happly, rfl⟩ := hrun
    have hr := hinserted t ht
    obtain ⟨c, r, -, hr', -, hrows⟩ := hsound.committed_rows ht (by simp [hr]) happly
    obtain rfl := Option.some.inj (hr.symm.trans hr')
    refine ⟨⟨before, hbefore, row, existing, hreads, hexisting, hsource, rfl, ?_, hheld⟩,
      ⟨createdAt, .inr ⟨true, ?_⟩⟩, ?_⟩
    · rw [← version_of_rowToRecord hexisting]
      rfl
    · rw [Database.committed, hrows]
      exact List.mem_append_right _ (List.mem_singleton.mpr rfl)
    · simp [Database.committed, hr, nextRow, versionRow, nextVersion]
  · intro a
    apply Component.outlines_pure
    rintro seen s - h stored ⟨⟩
    exact h
  · exact fun e => (outlines_rolledBack _).weaken fun _ _ _ _ => trivial

theorem outlines_replaceLatest (hsource : existing.fileSource = record.fileSource)
    (createdAt : Int) : (repository ι).Outlines Sound i
      (replaceLatest partition record existing createdAt) (Ahead partition record.id existing)
      fun reply seen s =>
        ∀ stored, reply = .ok stored → Replaced i partition record stored seen s := by
  unfold replaceLatest
  refine outlines_query (fun _ seen s => Ahead partition record.id existing seen s ∧
    ∀ t, s.transactions i = some t → t = {}) ?_ (fun _ _ _ => trivial) ?_ ?_ ?_
  · rintro - seen seen' s s' hsub hleaves ⟨hahead, hbegun⟩
    exact ⟨closed_ahead seen seen' s s' hsub hleaves hahead, fun t ht =>
      hbegun t (hleaves.transactions t ht)⟩
  · rintro seen s a s' - hahead hrun
    refine ⟨hahead.run hrun, ?_⟩
    obtain rfl : s' = s.withTransaction i (some {}) := hrun
    intro t ht
    simpa [Database.withTransaction, eq_comm] using ht
  · intro a
    refine outlines_query (fun n seen s => Ahead partition record.id existing seen s ∧
      (n ≠ 0 → HasCleared i partition record s)) ?_ (fun _ _ h => h.2) ?_ ?_ ?_
    · rintro n seen seen' s s' hsub hleaves ⟨hahead, hcleared⟩
      exact ⟨closed_ahead seen seen' s s' hsub hleaves hahead, fun hn t ht =>
        hcleared hn t (hleaves.transactions t ht)⟩
    · rintro seen s n s' - ⟨hahead, -⟩ hrun
      refine ⟨hahead.run hrun, fun hn t ht => ?_⟩
      obtain ⟨t', -, ⟨rfl, -⟩ | ⟨c, -, hlatest, -, rfl⟩⟩ := hrun
      · exact absurd rfl hn
      · have hnew : t = { t' with cleared := some c } := by
          simpa [Database.withTransaction, eq_comm] using ht
        subst hnew
        simp only [Row.isLatestReadyOf, Bool.and_eq_true, beq_iff_eq] at hlatest
        exact ⟨c, rfl, hlatest.1.1⟩
    · intro n
      cases n with
      | zero => exact outlines_rolledBack _
      | succ n =>
        refine outlines_query (fun _ seen s => Ahead partition record.id existing seen s ∧
          ∀ t, s.transactions i = some t →
            t.inserted = some (nextRow partition record existing createdAt)) ?_ ?_ ?_ ?_ ?_
        · rintro - seen seen' s s' hsub hleaves ⟨hahead, hinserted⟩
          exact ⟨closed_ahead seen seen' s s' hsub hleaves hahead, fun t ht =>
            hinserted t (hleaves.transactions t ht)⟩
        · rintro seen s ⟨hahead, hcleared⟩
          refine ⟨rfl, rfl, ?_, hcleared (Nat.succ_ne_zero n)⟩
          have hprevious : (versionRow partition (nextVersion record existing) record.fileSource
              createdAt .ready).version - 1 = existing.version := by
            simp [versionRow, nextVersion]
          rw [hprevious]
          exact hahead.holdsVersion
        · rintro seen s a s' - ⟨hahead, -⟩ hrun
          refine ⟨hahead.run hrun, fun t ht => ?_⟩
          obtain ⟨t', table, -, -, rfl⟩ := hrun
          have hnew : t = { t' with inserted := some (nextRow partition record existing createdAt) } := by
            simpa [Database.withTransaction, eq_comm, nextRow] using ht
          rw [hnew]
        · exact fun a => outlines_commitVersion hsource createdAt
        · exact fun e => (outlines_rolledBack _).weaken fun _ _ _ _ => trivial
    · exact fun e => (outlines_rolledBack _).weaken fun _ _ _ _ => trivial
  · intro e
    apply Component.outlines_pure
    rintro seen s - - stored ⟨⟩

theorem outlines_update : (repository ι).Outlines Sound i (update partition record)
    (fun _ _ => True) fun reply seen s =>
      ∀ stored, reply = .ok stored → Replaced i partition record stored seen s := by
  have hrefused : ∀ (e : Error) (P : Component.Assertion (Database ι)), (repository ι).Outlines
      Sound i (pure (.error e : Result FileMetadataRecord)) P fun reply seen s =>
        ∀ stored, reply = .ok stored → Replaced i partition record stored seen s := by
    intro e P
    apply Component.outlines_pure
    rintro seen s - - stored ⟨⟩
  unfold update
  cases validateRecord partition record with
  | error e => exact hrefused e _
  | ok u =>
    refine outlines_query (fun _ _ _ => True) (fun _ _ _ _ _ _ _ _ => trivial)
      (fun _ _ _ => trivial) (fun _ _ _ _ _ _ _ => trivial) (fun a => ?_) fun e => hrefused e _
    refine outlines_findLatestById.bind fun found => ?_
    cases found with
    | error e => exact hrefused e _
    | ok existing =>
      dsimp only
      split_ifs with hsource
      · exact hrefused _ _
      · refine (outlines_now closed_ahead fun createdAt =>
          outlines_replaceLatest (not_not.mp hsource) createdAt).weaken ?_
        exact fun seen s _ h => h existing rfl

end Update

/-! ## The other calls -/

section Markings
variable {partition recordId : String} {version : Int} {record : FileMetadataRecord}

theorem outlines_markReady : (repository ι).Outlines Sound i
    (markReady partition record recordId version) (fun _ _ => True) fun reply _ s =>
      ∀ marked, reply = .ok marked → Marked partition recordId version record marked s := by
  have hrefused : ∀ (e : Error) (P : Component.Assertion (Database ι)), (repository ι).Outlines
      Sound i (pure (.error e : Result FileMetadataRecord)) P fun reply _ s =>
        ∀ marked, reply = .ok marked → Marked partition recordId version record marked s := by
    intro e P
    apply Component.outlines_pure
    rintro seen s - - marked ⟨⟩
  unfold markReady
  cases validateRecord partition record with
  | error e => exact hrefused e _
  | ok u =>
    refine outlines_query (fun _ _ _ => True) (fun _ _ _ _ _ _ _ _ => trivial)
      (fun _ _ _ => trivial) (fun _ _ _ _ _ _ _ => trivial) (fun a => ?_) fun e => hrefused e _
    refine outlines_query (fun found _ s => ∀ row, found = some row →
      row.isVersionOf partition recordId version = true ∧ row.state = .ready ∧
        row.fileSource = record.fileSource ∧
          row.data = toJson { record with id := recordId, version := version } ∧ Held s row)
      ?_ (fun _ _ _ => trivial) ?_ (fun found => ?_) fun e => hrefused _ _
    · rintro found seen seen' s s' - hleaves h row hfound
      obtain ⟨hv, hready, hsource, hdata, hheld⟩ := h row hfound
      exact ⟨hv, hready, hsource, hdata, hleaves.held row hready hheld⟩
    · rintro seen s found s' - - ⟨rfl, rfl⟩ row hfound
      obtain ⟨old, hold, rfl⟩ := Option.map_eq_some_iff.mp hfound
      have happlies := List.find?_some hold
      have hmem := List.mem_map_of_mem (f := (marking partition record recordId version).apply)
        (List.mem_of_find?_eq_some hold)
      rw [Marking.apply, if_pos happlies] at hmem
      simp only [Marking.applies, Row.isClaimingVersionOf, Bool.and_eq_true, beq_iff_eq] at happlies
      exact ⟨happlies.1.1, rfl, happlies.2, rfl, .inr ⟨_, hmem⟩⟩
    · cases found with
      | none =>
        refine outlines_query (fun _ _ _ => True) (fun _ _ _ _ _ _ _ _ => trivial)
          (fun _ _ _ => trivial) (fun _ _ _ _ _ _ _ => trivial) (fun a => hrefused _ _)
          fun e => hrefused _ _
      | some row =>
        apply Component.outlines_pure
        intro seen s _ h marked hmarked
        obtain ⟨hv, hready, hsource, hdata, hheld⟩ := h row rfl
        exact ⟨row, hv, hready, hsource, hdata, hmarked, hheld⟩

end Markings

theorem uses_query {α : Type} {R : α → Prop} {q : Statement} {next : Result q.Answer → Program sql α}
    (hq : Mild (.statement q)) (hnext : ∀ r, (next r).Uses Mild R) :
    (query q >>= next).Uses Mild R :=
  ⟨hq, hnext⟩

theorem uses_borrowed {α : Type} {R : α → Prop} {next : Result Unit → Program sql α}
    (herror : ∀ e, (next (.error e)).Uses Mild R) (hok : (next (.ok ())).Uses Mild R) :
    (query .borrow >>= next).Uses Mild R := by
  refine uses_query trivial fun borrowed => ?_
  cases borrowed with
  | error e => exact herror e
  | ok u => exact hok

section Others
variable {partition recordId : String} {record : FileMetadataRecord}

theorem uses_findClaimBySource (fileSource : String) :
    (findClaimBySource partition fileSource).Uses Mild fun _ => True :=
  uses_query trivial fun _ => trivial

theorem uses_lostClaim (e : Error) :
    (lostClaim partition record e).Uses Mild fun _ => True := by
  refine Program.uses_bind (uses_findClaimBySource _) fun found _ => ?_
  cases found <;> exact trivial

theorem uses_insertClaim : (insertClaim partition record).Uses Mild fun _ => True := by
  unfold insertClaim
  refine ⟨trivial, fun createdAt => uses_query ⟨rfl, rfl⟩ fun inserted => ?_⟩
  rcases inserted with e | _ | n
  · dsimp only
    split_ifs
    · exact uses_lostClaim _
    · exact trivial
  · exact uses_lostClaim _
  · exact trivial

theorem uses_claimForWrite : (claimForWrite partition record).Uses Mild fun _ => True := by
  unfold claimForWrite
  cases validateRecord partition record with
  | error e => exact trivial
  | ok u =>
    refine uses_borrowed (fun _ => trivial) ?_
    · refine Program.uses_bind (uses_findClaimBySource _) fun found _ => ?_
      cases found with
      | ok claim => exact trivial
      | error e => exact uses_insertClaim

theorem uses_markReady {version : Int} :
    (markReady partition record recordId version).Uses Mild fun _ => True := by
  unfold markReady
  cases validateRecord partition record with
  | error e => exact trivial
  | ok u =>
    refine uses_borrowed (fun _ => trivial) ?_
    · refine uses_query trivial fun marked => ?_
      rcases marked with e | _ | row
      · exact trivial
      · exact uses_query trivial fun _ => trivial
      · exact trivial

theorem uses_create : (create partition record).Uses Mild fun _ => True := by
  unfold create
  cases validateRecord partition record with
  | error e => exact trivial
  | ok u =>
    refine Program.uses_bind uses_claimForWrite fun claimed _ => ?_
    cases claimed with
    | error e => exact trivial
    | ok claim =>
      dsimp only
      split_ifs
      · exact uses_markReady
      · exact trivial

theorem uses_releaseClaim {version : Int} :
    (releaseClaim partition recordId version).Uses Mild fun _ => True := by
  unfold releaseClaim
  split_ifs
  · exact trivial
  · refine uses_borrowed (fun _ => trivial) (uses_query trivial fun released => ?_)
    rcases released with e | _ | n <;> exact trivial

theorem uses_reclaimStaleClaiming {olderThan limit : Int} {sources : List String} :
    (reclaimStaleClaiming partition olderThan limit sources).Uses Mild fun _ => True := by
  unfold reclaimStaleClaiming
  split_ifs
  · exact trivial
  · exact trivial
  · refine uses_borrowed (fun _ => trivial) (uses_query trivial fun reclaimed => ?_)
    cases reclaimed <;> exact trivial

theorem uses_getLatestByFileSource {fileSource : String} :
    (getLatestByFileSource partition fileSource).Uses Mild fun _ => True := by
  unfold getLatestByFileSource
  split_ifs
  · exact trivial
  · exact uses_borrowed (fun _ => trivial) (uses_query trivial fun _ => trivial)

theorem uses_versionCount : (versionCount partition recordId).Uses Mild fun _ => True := by
  unfold versionCount
  refine uses_borrowed (fun _ => trivial) (uses_query trivial fun counted => ?_)
  cases counted <;> exact trivial

theorem uses_delete : (delete partition recordId).Uses Mild fun _ => True := by
  unfold delete
  split_ifs
  · exact trivial
  · refine uses_borrowed (fun _ => trivial) (uses_query trivial fun deleted => ?_)
    rcases deleted with e | _ | n <;> exact trivial

end Others

/-! ## Every call -/

/-- What a call that has succeeded has achieved. -/
def Method.Achieves (i : ι) : (m : Method) → m.Answer → Component.Assertion (Database ι)
  | .update partition record, reply =>
    fun seen s => ∀ stored, reply = .ok stored → Replaced i partition record stored seen s
  | .markReady partition recordId version record, reply =>
    fun _ s => ∀ marked, reply = .ok marked → Marked partition recordId version record marked s
  | .getById partition recordId, reply =>
    fun seen s => ∀ existing, reply = .ok existing → Ahead partition recordId existing seen s
  | _, _ => fun _ _ => True

theorem outlined_repository : (repository ι).Outlined Sound (fun _ _ => True)
    fun m i a seen s => m.Achieves i a seen s where
  idle i := Closed.stable fun _ _ _ _ _ _ _ => trivial
  env h hloses := h.loses hloses
  body := by
    intro i m
    have hall : Closed i fun (_ : List (Database ι)) (_ : Database ι) => True :=
      fun _ _ _ _ _ _ _ => trivial
    refine ⟨fun _ _ => True, hall.stable, fun _ _ _ _ => trivial, ?_⟩
    have hmild : ∀ {α : Type} {p : Program sql α}, p.Uses Mild (fun _ => True) →
        (repository ι).Outlines Sound i p (fun _ _ => True) fun _ _ _ => True ∧ True :=
      fun hp => (outlines_mild hp).strengthen fun _ _ _ _ _ => ⟨trivial, trivial⟩
    cases m with
    | update partition record =>
      exact outlines_update.strengthen fun _ _ _ _ h => ⟨h, trivial⟩
    | markReady partition recordId version record =>
      exact outlines_markReady.strengthen fun _ _ _ _ h => ⟨h, trivial⟩
    | getById partition recordId =>
      exact outlines_getById.strengthen fun _ _ _ _ h => ⟨h, trivial⟩
    | create partition record => exact hmild uses_create
    | claimForWrite partition record => exact hmild uses_claimForWrite
    | releaseClaim partition recordId version => exact hmild uses_releaseClaim
    | reclaimStaleClaiming partition olderThan limit sources =>
      exact hmild uses_reclaimStaleClaiming
    | getLatestByFileSource partition fileSource => exact hmild uses_getLatestByFileSource
    | versionCount partition recordId => exact hmild uses_versionCount
    | delete partition recordId => exact hmild uses_delete

end FileService.Postgres.Metadata
