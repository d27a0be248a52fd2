import FileService.Domain.RecordRoundTrip
import FileService.Interaction.Evaluation
import FileService.Postgres.MetadataCalls

/-!
# The history of a record

Any number of callers on any number of hosts create, claim, update, read and
delete records, and each of them may be killed at any moment. The versions of a
record have no gap, no update is lost, and what an update has answered is what
later calls read, or they read a later version.
-/
namespace FileService.Postgres.Metadata
open FileService.Common FileService.Domain FileService.Infra FileService.Interaction

section Runs
variable {ι : Type} [DecidableEq ι] {partition recordId : String}
variable {c c' : Component.Config ι (mortal sql) (Database ι) Method fun m => Option m.Answer}

omit [DecidableEq ι] in
theorem sound_empty : Sound ({} : Database ι) where
  chains partition id _ := by
    refine ⟨0, fun v => ?_, by simp, by simp⟩
    simp only [List.not_mem_nil, false_and, exists_false, false_iff]
    omega
  transactions := by simp
  installed := by simp
  distinct := by simp

theorem sound_of_reaches (h : (repository ι).mortal.Reaches {} c) : Sound c.state :=
  (outlined_repository.mortal.reaches sound_empty (fun _ => trivial) h).1

theorem achieves_of_reaches (h : (repository ι).mortal.Reaches {} c) {i : ι} {m : Method}
    {a : m.Answer} {seen : List (Database ι)}
    (hcall : c.running i = some ⟨m, .ret (some a), seen⟩) : m.Achieves i a seen c.state :=
  outlined_repository.mortal.returns sound_empty (fun _ => trivial) h hcall a rfl

/-- The versions of a record that was never deleted are `1` to the latest one, whatever the callers
do and wherever they are killed. -/
theorem versions_unbroken (h : (repository ι).mortal.Reaches {} c)
    (hkept : (partition, recordId) ∉ c.state.removed) :
    ∃ n, Chain c.state.table.rows partition recordId n :=
  (sound_of_reaches h).chains partition recordId hkept

omit [DecidableEq ι] in
/-- One caller at most has installed a version. -/
theorem Sound.installed_by {s : Database ι} (h : Sound s) {a b : Installed ι}
    (ha : a ∈ s.installed) (hb : b ∈ s.installed) (hkey : a.key = b.key)
    (hkept : (a.partition, a.id) ∉ s.removed) : a = b := by
  let R : Installed ι → Installed ι → Prop := fun x y => (x.partition, x.id) ∉ s.removed →
    x.key ≠ y.key
  have : Std.Symm R := by
    refine ⟨fun x y hxy hy hsame => hxy ?_ hsame.symm⟩
    simp only [Installed.key, Prod.mk.injEq] at hsame
    rwa [← hsame.1, ← hsame.2.1]
  by_contra hne
  exact (show s.installed.Pairwise R from h.distinct).forall ha hb hne hkept hkey

/-- An update that succeeds has installed the version after the one it had read, with nothing in
between, and nobody else has installed that version. -/
theorem update_replaces {record stored : FileMetadataRecord} {i : ι} {seen : List (Database ι)}
    (h : (repository ι).mortal.Reaches {} c)
    (hcall : c.running i = some ⟨.update partition record, .ret (some (.ok stored)), seen⟩) :
    Replaced i partition record stored seen c.state ∧
      ((partition, record.id) ∉ c.state.removed → ∀ e ∈ c.state.installed,
        e.key = (partition, record.id, stored.version) → e.caller = i) := by
  have hreplaced : Replaced i partition record stored seen c.state :=
    achieves_of_reaches h hcall stored rfl
  refine ⟨hreplaced, fun hkept e he hkey => ?_⟩
  have hkept' : (e.partition, e.id) ∉ c.state.removed := by
    simp only [Installed.key, Prod.mk.injEq] at hkey
    rwa [hkey.1, hkey.2.1]
  rw [(sound_of_reaches h).installed_by he hreplaced.installed hkey hkept']

/-! ## Reading what was written -/

theorem Held.exec {i : ι} {s s' : Database ι} {op : (mortal sql).Op} {r : (mortal sql).Reply op}
    {row : Row} (hready : row.state = .ready) (hexec : (repository ι).mortal.exec i s op r s')
    (h : Held s row) : Held s' row := by
  have hplain : ∀ {r : sql.Reply op}, (repository ι).exec i s op r s' → Held s' row := by
    intro r hexec
    cases hexec with
    | now t => exact h
    | failed e hq => exact h
    | done hrun => exact h.run hready hrun
    | lost e hrun => exact h.run hready hrun
  cases r with
  | some r => exact hplain hexec
  | none =>
    rcases hexec with rfl | ⟨r, hexec⟩
    · exact h
    · exact hplain hexec

omit [DecidableEq ι] in
/-- Two versions of one number are one version. -/
theorem rowToRecord_eq_of_held {s : Database ι} {a b : Row} (ha : Held s a) (hb : Held s b)
    (hof : a.isOf b.partitionId b.id = true) (hversion : a.version = b.version)
    (hkept : (b.partitionId, b.id) ∉ s.removed) : rowToRecord a = rowToRecord b := by
  obtain ⟨hpartition, hid⟩ := isOf_iff.mp hof
  obtain ⟨x, hx⟩ := ha.resolve_left (by rwa [hpartition, hid])
  obtain ⟨y, hy⟩ := hb.resolve_left hkept
  have hsame : ({ a with isLatest := x } : Row) = { b with isLatest := y } :=
    s.table.eq_of_key hx hy hof hversion
  have hdata : a.data = b.data := (Row.mk.injEq .. ▸ hsame).2.2.2.2.2.2.2.2.2.2.2
  rw [rowToRecord, rowToRecord, hdata, hversion]

theorem rowToRecord_versionRow {stored : FileMetadataRecord} (h : stored.Storable)
    (fileSource : String) (createdAt : Int) (state : MetadataState) :
    rowToRecord (versionRow partition stored fileSource createdAt state) = .ok stored := by
  have hparse := parse_toJson h
  simp only [rowToRecord, versionRow, hparse]
  rfl

end Runs

/-! ## A run of two callers -/

/-- The row that an open transaction has cleared is still there. -/
def Locked (s : Database Bool) : Prop :=
  ∀ i t c, s.transactions i = some t → t.cleared = some c → c ∈ s.table.rows ∧ c.state = .ready

def failure : Error := err .unavailable "connection lost"

/-- A database whose statements of creating, updating and reading do what they are for, as long as
one caller at a time has a transaction. -/
def Database.answer (i : Bool) (call : Call) (s : Database Bool) : call.Reply × Database Bool :=
  match call with
  | .now => (1614784413, s)
  | .statement .borrow => (.ok (), s)
  | .statement (.selectLatestById partition id) =>
    (.ok (s.table.rows.find? (Row.isLatestReadyOf partition id)), s)
  | .statement (.selectClaimBySource partition fileSource) =>
    (.ok (s.table.rows.find? (Row.isSourceOf partition fileSource)), s)
  | .statement (.claimInsert row) =>
    match s.table.insert? row with
    | some table => (.ok 1, s.withTable table)
    | none => (.error failure, s)
  | .statement (.markReady marking) =>
    (.ok ((s.table.rows.find? marking.applies).map marking.marked),
      s.withTable (s.table.update marking.apply marking.keepsIndexes_apply))
  | .statement .begin => (.ok (), s.withTransaction i (some {}))
  | .statement (.clearLatest partition id) =>
    match s.transactions i, s.table.rows.find? (Row.isLatestReadyOf partition id) with
    | some t, some row => (.ok 1, s.withTransaction i (some { t with cleared := some row }))
    | _, _ => (.error failure, s)
  | .statement (.insertVersion row) =>
    match s.transactions i with
    | some t =>
      match { t with inserted := some row }.next? s.table with
      | some _ => (.ok (), s.withTransaction i (some { t with inserted := some row }))
      | none => (.error failure, s)
    | none => (.error failure, s)
  | .statement .commit =>
    match s.transactions i, s.transactions !i with
    | some t, none =>
      match t.next? s.table with
      | some table => (.ok (), s.committed i t table)
      | none => (.error failure, s)
    | _, _ => (.error failure, s)
  | .statement .rollback => (.ok (), s.withTransaction i none)
  | .statement _ => (.error failure, s)

theorem Locked.withTransaction {s : Database Bool} (h : Locked s) {i : Bool}
    {t : Option Transaction} (ht : ∀ t', t = some t' → ∀ c, t'.cleared = some c →
      c ∈ s.table.rows ∧ c.state = .ready) : Locked (s.withTransaction i t) := by
  intro j t' c ht' hc
  rcases transactions_withTransaction ht' with hs | ⟨-, hnew⟩
  · exact h j t' c hs hc
  · exact ht t' hnew c hc

theorem exec_answer (i : Bool) (call : Call) {s : Database Bool} (h : Locked s) :
    (repository Bool).exec i s call (Database.answer i call s).1 (Database.answer i call s).2 ∧
      Locked (Database.answer i call s).2 := by
  have hfailed : ∀ q : Statement, q ≠ .rollback →
      (repository Bool).exec i s (.statement q) (.error failure) s ∧ Locked s :=
    fun q hq => ⟨.failed _ hq, h⟩
  cases call with
  | now => exact ⟨.now _, h⟩
  | statement q =>
    cases q with
    | borrow => exact ⟨.done rfl, h⟩
    | selectLatestById p k => exact ⟨.done ⟨rfl, rfl⟩, h⟩
    | selectClaimBySource p f => exact ⟨.done ⟨rfl, rfl⟩, h⟩
    | claimInsert row =>
      rw [Database.answer]
      cases hinsert : s.table.insert? row with
      | none => exact hfailed _ (by simp)
      | some table =>
        refine ⟨.done (.inl ⟨rfl, table, hinsert, rfl⟩), fun j t c ht hc => ?_⟩
        obtain ⟨hmem, hready⟩ := h j t c ht hc
        refine ⟨?_, hready⟩
        change c ∈ table.rows
        rw [(Table.insert?_eq_some hinsert).2]
        exact List.mem_append_left _ hmem
    | markReady marking =>
      refine ⟨.done ⟨rfl, rfl⟩, fun j t c ht hc => ?_⟩
      obtain ⟨hmem, hready⟩ := h j t c ht hc
      refine ⟨List.mem_map.mpr ⟨c, hmem, ?_⟩, hready⟩
      simp [Marking.apply, Marking.applies, Row.isClaimingVersionOf, hready]
    | begin =>
      refine ⟨.done rfl, h.withTransaction ?_⟩
      rintro _ ⟨⟩ c ⟨⟩
    | clearLatest p k =>
      rw [Database.answer]
      cases ht : s.transactions i with
      | none => exact hfailed _ (by simp)
      | some t =>
        cases hfind : s.table.rows.find? (Row.isLatestReadyOf p k) with
        | none => exact hfailed _ (by simp)
        | some row =>
          have hmem := List.mem_of_find?_eq_some hfind
          have hlatest := List.find?_some hfind
          refine ⟨.done ⟨t, ht, .inr ⟨row, hmem, hlatest, rfl, rfl⟩⟩, h.withTransaction ?_⟩
          rintro _ ⟨⟩ c ⟨⟩
          simp only [Row.isLatestReadyOf, Bool.and_eq_true, beq_iff_eq] at hlatest
          exact ⟨hmem, hlatest.2⟩
    | insertVersion row =>
      rw [Database.answer]
      cases ht : s.transactions i with
      | none => exact hfailed _ (by simp)
      | some t =>
        cases happly : { t with inserted := some row : Transaction }.next? s.table with
        | none =>
          simp only [happly]
          exact hfailed _ (by simp)
        | some table =>
          simp only [happly]
          refine ⟨.done ⟨t, table, ht, happly, rfl⟩, h.withTransaction ?_⟩
          rintro _ ⟨⟩ c hc
          exact h i t c ht hc
    | commit =>
      rw [Database.answer]
      cases ht : s.transactions i with
      | none => exact hfailed _ (by simp)
      | some t =>
        cases hother : s.transactions !i with
        | some t' => exact hfailed _ (by simp)
        | none =>
          cases happly : t.next? s.table with
          | none =>
            simp only [happly]
            exact hfailed _ (by simp)
          | some table =>
            simp only [happly]
            refine ⟨.done ⟨t, table, ht, fun c hc => (h i t c ht hc).1, happly, rfl⟩, ?_⟩
            intro j t' c ht'
            cases j <;> cases i <;> simp_all [Database.committed]
    | rollback =>
      refine ⟨.done rfl, h.withTransaction ?_⟩
      rintro _ ⟨⟩
    | _ => exact hfailed _ (by simp)

/-- A caller that is not killed makes its call as it would alone. -/
theorem performs_answer (i : Bool) (m : Method) {s : Database Bool} (h : Locked s) :
    (∃ t, ((repository Bool).mortal.body m).Performs ((repository Bool).mortal.exec i) s t
      (some (m.body.evaluate (Database.answer i) s).1) (m.body.evaluate (Database.answer i) s).2) ∧
        Locked (m.body.evaluate (Database.answer i) s).2 := by
  have hanswer : ∀ op s, Locked s → (repository Bool).exec i s op (Database.answer i op s).1
      (Database.answer i op s).2 ∧ Locked (Database.answer i op s).2 :=
    fun op s hs => exec_answer i op hs
  obtain ⟨⟨t, hperforms⟩, hlocked⟩ := Program.exists_performs_evaluate_of hanswer m.body h
  exact ⟨Component.performs_mortal hperforms, hlocked⟩

def sampleRecord : FileMetadataRecord where
  id := "p:1"
  kind := "o:wks:dataset--File.Generic:1.0.0"
  acl := { viewers := ["data.x@a.b"], owners := ["data.x@a.b"] }
  legal := { legaltags := ["t"], otherRelevantDataCountries := ["US"] }
  data := { datasetProperties := { fileSourceInfo := { fileSource := "/f" } } }

abbrev sampleCreate : Method := .create "p" sampleRecord

abbrev sampleUpdate : Method := .update "p" sampleRecord

abbrev sampleGet : Method := .getById "p" sampleRecord.id

def sampleCreated : Database Bool := (sampleCreate.body.evaluate (Database.answer false) {}).2

def sampleUpdated : Database Bool :=
  (sampleUpdate.body.evaluate (Database.answer false) sampleCreated).2

def recordOr (r : Result FileMetadataRecord) : FileMetadataRecord := r.toOption.getD {}

theorem eq_ok_recordOr {r : Result FileMetadataRecord} (h : r.toOption.isSome = true) :
    r = .ok (recordOr r) := by
  cases r with
  | ok record => rfl
  | error e => cases h

def sampleStored : FileMetadataRecord :=
  recordOr (sampleUpdate.body.evaluate (Database.answer false) sampleCreated).1

def sampleFound : FileMetadataRecord :=
  recordOr (sampleGet.body.evaluate (Database.answer true) sampleUpdated).1

theorem locked_empty : Locked {} := by simp [Locked]

theorem locked_sampleCreated : Locked sampleCreated := (performs_answer false sampleCreate locked_empty).2

theorem reaches_sampleUpdated : ∃ seen, (repository Bool).mortal.Reaches {}
    ⟨Function.update (fun _ => none) false
      (some ⟨sampleUpdate, .ret (some (.ok sampleStored)), seen⟩), sampleUpdated⟩ := by
  obtain ⟨⟨t, hcreate⟩, -⟩ := performs_answer false sampleCreate locked_empty
  obtain ⟨⟨t', hupdate⟩, -⟩ := performs_answer false sampleUpdate locked_sampleCreated
  have hstored : (sampleUpdate.body.evaluate (Database.answer false) sampleCreated).1 =
      .ok sampleStored := eq_ok_recordOr (by decide +kernel)
  rw [hstored] at hupdate
  have hcreated := (Component.Reaches.runs (i := false) (m := sampleCreate) .refl rfl trivial hcreate).2
  exact (hcreated.runs rfl trivial hupdate).1

theorem kept_sampleUpdated (id : String) : ("p", id) ∉ sampleUpdated.removed := by
  have hremoved : sampleUpdated.removed = [] := by decide +kernel
  simp [hremoved]

theorem sample_versions_unbroken :
    ∃ n, Chain sampleUpdated.table.rows "p" sampleRecord.id n := by
  obtain ⟨seen, hreaches⟩ := reaches_sampleUpdated
  exact versions_unbroken hreaches (kept_sampleUpdated _)

theorem sample_update_replaces : ∃ seen,
    Replaced false "p" sampleRecord sampleStored seen sampleUpdated ∧
      (("p", sampleRecord.id) ∉ sampleUpdated.removed → ∀ e ∈ sampleUpdated.installed,
        e.key = ("p", sampleRecord.id, sampleStored.version) → e.caller = false) := by
  obtain ⟨seen, hreaches⟩ := reaches_sampleUpdated
  exact ⟨seen, update_replaces (i := false) hreaches rfl⟩

end FileService.Postgres.Metadata
