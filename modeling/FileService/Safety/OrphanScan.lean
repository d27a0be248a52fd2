import FileService.App.GcTask
import FileService.Domain.Effects
import FileService.Sqlite.LocationReads

/-!
# The orphan scan over the SQLite location repository

A persistent object goes when the pages of the location repository do not
mention it. The scan is safe as long as no page ends at a failed step.
-/
namespace FileService.Safety.OrphanScan
open FileService.Common FileService.Domain FileService.Interaction FileService.App
open FileService.Sqlite FileService.Sqlite.LocationRepository

section Scan
variable (parse : String → Result FileLocation) (table : LocationTable)

/-- The listings come from the table, whatever faults strike them. -/
def Listings (P : Option Fault → Option Fault → String → LocationQuery → Prop) : Assumption ports
  | .locations (.list partition q), reply => ∃ countFault rowsFault,
      reply = LocationRepository.list parse table countFault rowsFault partition q ∧
        P countFault rowsFault partition q
  | _, _ => True

/-- The listings come from the table, and no fault truncates one. -/
abbrev WholeListings : Assumption ports :=
  Listings parse table fun countFault rowsFault partition q =>
    ¬Truncates parse table countFault rowsFault partition q

/-- A location record of the partition names the object. -/
def Referenced (partition : String) (ref : ObjectRef) : Prop :=
  ∃ row ∈ table.rows, row.partitionId = partition ∧
    ∃ location, parse row.data = .ok location ∧ physicalRef location = .ref ref

/-- The calls that remove no object that is referenced; temporary files are another matter. -/
def Spares (partition : String) : Port → Prop
  | .blobs _ (.remove ref) => isTempKey ref.key = true ∨ ¬Referenced parse table partition ref
  | _ => True

variable {parse table} {partition : String}

/-- The map knows the records of the given rows. -/
def Knows (parse : String → Result FileLocation) (refs : RefMap) (rows : List LocationRow) : Prop :=
  ∀ row ∈ rows, ∀ location k, parse row.data = .ok location →
    referenceKey? location = some k → (refs[k]?).isSome

/-- A page adds the records of its window to the map. -/
theorem Knows.addPage {refs : RefMap} {rows : List LocationRow} {records : List FileLocation}
    {offset : Nat} (h : Knows parse refs (rows.take offset))
    (hrecords : (((rows.drop offset).take 500).map LocationRow.data).mapM parse = .ok records) :
    Knows parse (records.foldl addReference refs) (rows.take (offset + records.length)) := by
  have hread := mapM_eq_ok.mp hrecords
  have hwindow : (rows.drop offset).take records.length = (rows.drop offset).take 500 := by
    rw [← hread.length_eq, List.length_map, List.length_take]
    exact (List.take_eq_take_iff.mpr (by simp))
  intro row hrow location k hparse hkey
  apply isSome_addReferences
  rw [List.take_add, hwindow, List.mem_append] at hrow
  rcases hrow with hrow | hrow
  · exact .inl (h row hrow location k hparse hkey)
  · refine .inr ⟨location, ?_, hkey⟩
    obtain ⟨i, hi, rfl⟩ := List.mem_iff_getElem.mp hrow
    have hget := (List.forall₂_iff_get.mp hread).2 i (by simpa using hi)
      (by simpa [← hread.length_eq] using hi)
    simp only [List.get_eq_getElem, List.getElem_map, hparse, Except.ok.injEq] at hget
    exact hget ▸ List.getElem_mem _

/-- Without a truncated page the map knows every record of the partition. -/
theorem relies_referencedRefsFrom (pages : Nat) {offset : Nat} {refs : RefMap}
    (h : Knows parse refs ((table.listed partition {}).take offset)) :
    Interaction.Action.Relies (WholeListings parse table) (Spares parse table partition)
      (fun refs => Knows parse refs (table.listed partition {}))
      (referencedRefsFrom partition pages offset refs) := by
  induction pages generalizing offset refs with
  | zero => exact Interaction.Action.relies_throw
  | succ pages ih =>
    refine Interaction.Action.relies_bind (Domain.Action.relies_ask trivial) fun reply hreply => ?_
    refine Interaction.Action.relies_bind (Domain.Action.relies_tryResult reply) fun page hpage => ?_
    obtain ⟨countFault, rowsFault, rfl, hwhole⟩ := hreply
    obtain ⟨htotal, hrecords⟩ := list_exact_iff.mpr hwhole page hpage
    have hknows : Knows parse (page.records.foldl addReference refs)
        ((table.listed partition {}).take (offset + page.records.length)) := h.addPage hrecords
    have hlength := (mapM_eq_ok.mp hrecords).length_eq
    change (((table.listed partition {}).drop offset).take 500 |>.map LocationRow.data).length =
      page.records.length at hlength
    rw [List.length_map, List.length_take, List.length_drop] at hlength
    change page.total = (table.listed partition {}).length at htotal
    have hoffset : (offset : Int) + page.records.length =
        ((offset + page.records.length : Nat) : Int) := by simp
    simp only [hoffset]
    split_ifs with hend
    · apply Interaction.Action.relies_pure
      have hall : (table.listed partition {}).length ≤ offset + page.records.length := by
        simp only [Bool.or_eq_true, List.isEmpty_iff, decide_eq_true_eq] at hend
        rcases hend with hempty | hreached
        · rw [hempty] at hlength
          simp only [List.length_nil] at hlength
          omega
        · omega
      rwa [List.take_of_length_le hall] at hknows
    · exact ih hknows

theorem relies_deleteCandidate {options : GcOptions} {store : StoreId} {ref : ObjectRef}
    {fileId : String} {deleteLocation : Bool} {report : GcReport} {R : Assumption ports}
    (href : isTempKey ref.key = true ∨ ¬Referenced parse table partition ref) :
    Interaction.Action.Relies R (Spares parse table partition) (fun _ => True)
      (deleteCandidate options store ref fileId deleteLocation partition report) := by
  unfold deleteCandidate
  split_ifs
  · exact Interaction.Action.relies_pure trivial
  · refine Interaction.Action.relies_bind (Domain.Action.relies_ask href) ?_
    rintro (e | removed) -
    · exact Interaction.Action.relies_pure trivial
    · refine Interaction.Action.relies_bind (Domain.Action.relies_ask trivial) ?_
      rintro (e | deleted) - <;> exact Interaction.Action.relies_pure trivial
  · refine Interaction.Action.relies_bind (Domain.Action.relies_ask href) ?_
    rintro (e | removed) - <;> exact Interaction.Action.relies_pure trivial

theorem relies_collectOrphanEntry {options : GcOptions} {store : StoreId} {container : String}
    {refs : RefMap} {cutoff : Int} {report : GcReport} {entry : ListEntry} {R : Assumption ports}
    (h : Knows parse refs (table.listed partition {})) :
    Interaction.Action.Relies R (Spares parse table partition) (fun _ => True)
      (collectOrphanEntry options store container partition refs cutoff report entry) := by
  unfold collectOrphanEntry collectTempEntry
  split_ifs with htemp hyoung hknown
  · exact Interaction.Action.relies_pure trivial
  · exact relies_deleteCandidate (.inl htemp)
  · exact Interaction.Action.relies_pure trivial
  · exact Interaction.Action.relies_pure trivial
  · apply relies_deleteCandidate
    right
    rintro ⟨row, hrow, hpartition, location, hparse, href⟩
    have hlisted : row ∈ table.listed partition {} := by
      simp [LocationTable.listed, LocationTable.isListed, hrow, hpartition]
    have hmem := h row hlisted location (pairKey container entry.key) hparse
      (by simp [referenceKey?, href])
    rw [Std.ExtTreeMap.isSome_getElem?_eq_contains] at hmem
    exact hknown hmem

theorem relies_forEachEntry {store : StoreId} {container : String} {R : Assumption ports}
    {entry : GcReport → ListEntry → Domain.Action GcReport}
    (hentry : ∀ report e, Interaction.Action.Relies R (Spares parse table partition)
      (fun _ => True) (entry report e)) (pages : Nat) (token : String) (report : GcReport) :
    Interaction.Action.Relies R (Spares parse table partition) (fun _ => True)
      (forEachEntry store container entry pages token report) := by
  induction pages generalizing token report with
  | zero => exact Interaction.Action.relies_throw
  | succ pages ih =>
    refine Interaction.Action.relies_bind (Domain.Action.relies_ask trivial) ?_
    rintro (e | page) -
    · exact Interaction.Action.relies_pure trivial
    · refine Interaction.Action.relies_bind (Interaction.Action.relies_foldlM
        (fun report _ e _ => hentry report e) trivial) fun report _ => ?_
      split_ifs
      · exact Interaction.Action.relies_pure trivial
      · exact ih _ _

/-- Without a truncated page the orphan scan removes no object that a record names. -/
theorem relies_collectOrphanObjects (pages : Nat) (options : GcOptions) (persistent : StoreId)
    (nowSeconds : Int) (report : GcReport) :
    Interaction.Action.Relies (WholeListings parse table) (Spares parse table partition)
      (fun _ => True)
      (collectOrphanObjects pages partition options persistent nowSeconds report) := by
  unfold collectOrphanObjects scanZone
  have hcontainer : Interaction.Action.Relies (WholeListings parse table)
      (Spares parse table partition) (fun _ => True) (containerFor partition .persistent) :=
    Interaction.Action.relies_bind (Domain.Action.relies_ask trivial)
      fun _ _ => Interaction.Action.relies_pure trivial
  refine Interaction.Action.relies_bind hcontainer ?_
  rintro (e | container) -
  · exact Interaction.Action.relies_pure trivial
  · have hempty : Knows parse ∅ ((table.listed partition {}).take 0) := by simp [Knows]
    have hrefs := relies_referencedRefsFrom pages hempty
    refine Interaction.Action.relies_bind (Domain.Action.relies_attempt hrefs) ?_
    rintro (e | refs) hknows
    · exact Interaction.Action.relies_pure trivial
    · exact relies_forEachEntry (fun _ _ => relies_collectOrphanEntry (hknows refs rfl)) _ _ _

/-- **A read fault is not absence.** A lookup reports absence truthfully if and only if no fault
conceals the row, a listing has the rows of its window if and only if no fault truncates it, and
an orphan scan none of whose pages is truncated removes no object that a record names. -/
theorem reads_truthful_iff (parse : String → Result FileLocation) (table : LocationTable) :
    (∀ fault partition fileId,
      (∀ e, find parse table fault partition fileId = .error e → e.kind = .notFound →
        ¬∃ row ∈ table.rows, row.partitionId = partition ∧ row.fileId = fileId) ↔
      ¬Conceals parse (table.selectByFileId partition fileId) fault) ∧
    (∀ fault partition fileSource,
      (∀ e, findByFileSource parse table fault partition fileSource = .error e →
        e.kind = .notFound →
          ¬∃ row ∈ table.rows, row.partitionId = partition ∧ row.fileSource = fileSource) ↔
      ¬Conceals parse (table.selectByFileSource partition fileSource) fault) ∧
    (∀ countFault rowsFault partition q,
      (∀ page, LocationRepository.list parse table countFault rowsFault partition q = .ok page →
        page.total = (table.listed partition q).length ∧
          (table.window partition q).mapM parse = .ok page.records) ↔
      ¬Truncates parse table countFault rowsFault partition q) ∧
    ∀ pages partition options persistent nowSeconds report t out,
      (collectOrphanObjects pages partition options persistent nowSeconds report).run.Emits t out →
      (∀ o ∈ t, WholeListings parse table o.op o.reply) →
        ∀ o ∈ t, Spares parse table partition o.op := by
  refine ⟨fun fault partition fileId => ?_, fun fault partition fileSource => ?_,
    fun countFault rowsFault partition q => list_exact_iff, ?_⟩
  · rw [← findRow_truthful_iff]
    simp only [LocationTable.selectByFileId_eq_nil]
    rfl
  · rw [← findRow_truthful_iff]
    simp only [LocationTable.selectByFileSource_eq_nil]
    rfl
  · intro pages partition options persistent nowSeconds report t out hemits hlistings
    exact ((relies_collectOrphanObjects pages options persistent nowSeconds report).along hemits
      hlistings).1

/-! ## A busy database -/

/-- A location record of the object `k` in the persistent container of the partition `p`. -/
def migrated : FileLocation where
  fileId := "f"
  fileSource := "/s"
  zone := .persistent
  extra := .object [("container", .string "p-persistent"), ("object_key", .string "k")]

def oneRow : LocationTable where
  rows := [⟨"p", "f", "/s", "", 0, "{}"⟩]

/-- The step fails with `SQLITE_BUSY` before the first row. -/
def busy : Fault := .step 0 5 "database is locked"

/-- The calls of an orphan scan while the database is busy, one day after the epoch. -/
def busyScan : Trace ports :=
  [⟨.partitionConfig "p", .error (err .notFound "no such partition")⟩,
    ⟨.locations (.list "p" { limit := 500 }), .ok { records := [], total := 1 }⟩,
    ⟨.blobs "store" (.list "p-persistent" "" "" 500), .ok { entries := [{ key := "k" }] }⟩,
    ⟨.blobs "store" (.remove { container := "p-persistent", key := "k" }), .ok ()⟩]

/-- While the database is busy both lookups report the record as absent, the listing succeeds
without it, and the orphan scan removes its object. -/
theorem busy_database_loses_object :
    (∃ e, find (fun _ => .ok migrated) oneRow busy "p" "f" = .error e ∧ e.kind = .notFound) ∧
    (∃ e, findByFileSource (fun _ => .ok migrated) oneRow busy "p" "/s" = .error e ∧
      e.kind = .notFound) ∧
    LocationRepository.list (fun _ => .ok migrated) oneRow none busy "p" { limit := 500 } =
      .ok { records := [], total := 1 } ∧
    ∃ t out, (collectOrphanObjects 1 "p" { dryRun := false, orphanGraceHours := 0 } "store" 86400
        { dryRun := false }).run.Emits t out ∧
      (∀ o ∈ t, Listings (fun _ => .ok migrated) oneRow (fun _ _ _ _ => True) o.op o.reply) ∧
      ∃ o ∈ t, ¬Spares (fun _ => .ok migrated) oneRow "p" o.op := by
  have hlist : LocationRepository.list (fun _ => .ok migrated) oneRow none busy "p"
      { limit := 500 } = .ok { records := [], total := 1 } := rfl
  have hrun : ∃ out, (collectOrphanObjects 1 "p" { dryRun := false, orphanGraceHours := 0 } "store"
      86400 { dryRun := false }).run.Emits busyScan out := by
    exact ⟨.ok ({ dryRun := false : GcReport }.addDeleted "k"), _, _, rfl, _, _, rfl, _, _, rfl,
      _, _, rfl, Program.emits_pure.mpr ⟨rfl, rfl⟩⟩
  obtain ⟨out, hrun⟩ := hrun
  refine ⟨⟨_, rfl, rfl⟩, ⟨_, rfl, rfl⟩, hlist, busyScan, out, hrun, ?_, ?_⟩
  · simp only [busyScan, List.forall_mem_cons, List.not_mem_nil, false_implies, implies_true,
      and_true]
    exact ⟨trivial, ⟨none, some busy, hlist.symm, trivial⟩, trivial, trivial⟩
  · refine ⟨⟨.blobs "store" (.remove { container := "p-persistent", key := "k" }), .ok ()⟩, by simp [busyScan], ?_⟩
    rintro (htemp | hunnamed)
    · exact absurd htemp (by decide)
    · exact hunnamed ⟨_, List.mem_cons_self, rfl, migrated, rfl, rfl⟩

end Scan

end FileService.Safety.OrphanScan
