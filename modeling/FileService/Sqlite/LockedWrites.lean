import FileService.Sqlite.MetadataRepository

/-!
# Writes in transactions of their own

The writes of the repository without group commit, and when a reported success
is a committed one. A `COMMIT` that fails is the only way to lose changes: the
statement-level operations give up at their first failing statement.
-/
namespace FileService.Sqlite
open FileService.Common FileService.Domain FileService.Infra FileService.Interaction
open MetadataRepository

/-- The write operations that open a transaction themselves. -/
inductive LockedWrite where
  | claimForWrite (partition : String) (record : FileMetadataRecord)
  | markReady (partition recordId : String) (version : Int) (record : FileMetadataRecord)
  | update (partition : String) (record : FileMetadataRecord)
  | reclaimStaleClaiming (partition : String) (olderThanEpochSeconds limit : Int)
      (liveExpiredSources : List String)

namespace LockedWrite

abbrev Value : LockedWrite → Type
  | .claimForWrite .. => MetadataClaim
  | .markReady .. => FileMetadataRecord
  | .update .. => FileMetadataRecord
  | .reclaimStaleClaiming .. => Int

variable (codec : RecordCodec)

/-- The statement-level operation, whose effect a success reports. -/
def operation : (w : LockedWrite) → Statements (Result w.Value)
  | .claimForWrite partition record => claimForWriteInTransaction codec partition record
  | .markReady partition recordId version record =>
    markReadyRow codec partition recordId version record
  | .update partition record => updateInTransaction codec partition record
  | .reclaimStaleClaiming partition olderThan limit sources =>
    reclaimStaleClaimingStatements partition olderThan limit sources

def locked : (w : LockedWrite) → OnConnection (Result w.Value)
  | .claimForWrite partition record => claimForWriteLocked codec partition record
  | .markReady partition recordId version record =>
    markReadyLocked codec partition recordId version record
  | .update partition record => updateLocked codec partition record
  | .reclaimStaleClaiming partition olderThan limit sources =>
    reclaimStaleClaimingLocked partition olderThan limit sources

end LockedWrite

/-- A success is durable; an error leaves the data alone and no transaction open. -/
def Committed {α : Type} (p : Statements (Result α)) (d : MetadataTable) (result : Result α)
    (c : Connection MetadataTable) : Prop :=
  match result with
  | .ok a => RunsOn metadataSchema p d (.ok a) c.durable
  | .error _ => c = ⟨d, none⟩

/-- A `COMMIT` fails while its transaction holds changes. -/
def LosesCommit (t : Events metadataSchema) : Prop :=
  ∃ before code after, ⟨before, .control .commit, .error code, after⟩ ∈ t ∧
    before.view ≠ before.durable

theorem losesCommit_append {t₁ t₂ : Events metadataSchema} :
    LosesCommit (t₁ ++ t₂) ↔ LosesCommit t₁ ∨ LosesCommit t₂ := by
  simp only [LosesCommit, List.mem_append, or_and_right, exists_or]

theorem losesCommit_cons {x : Performed (connection metadataSchema) (Connection MetadataTable)}
    {t : Events metadataSchema} (hx : x.op ≠ .control .commit) :
    LosesCommit (x :: t) ↔ LosesCommit t := by
  have hnot : ¬LosesCommit [x] := by
    rintro ⟨before, code, after, hmem, -⟩
    exact hx (List.mem_singleton.mp hmem ▸ rfl)
  rw [← List.singleton_append, losesCommit_append]
  exact or_iff_right hnot

theorem not_losesCommit_of_statements {t : Events metadataSchema}
    (h : ∀ x ∈ t, ∃ call, x.op = .statement call) : ¬LosesCommit t := by
  rintro ⟨before, code, after, hmem, -⟩
  obtain ⟨call, hcall⟩ := h _ hmem
  cases hcall

/-! ## What the statement-level operations do -/

section Operations
variable {codec : RecordCodec} {partition : String} {record : FileMetadataRecord}
variable {x x' : MetadataTable}

theorem run_insertVersion {row : MetadataRow} {answer : Except Code Unit}
    (h : RunsOn metadataSchema (exec (.insertVersion row)) x answer x') :
    (answer = .ok () ∧ x'.rows = x.rows ++ [row]) ∨ ((∃ code, answer = .error code) ∧ x' = x) := by
  have happlies := runsOn_execute.mp h
  cases answer with
  | error code => exact .inr ⟨⟨code, rfl⟩, applies_error happlies⟩
  | ok u =>
    left
    have hrun := applies_ok happlies
    simp only [metadataSchema, MetadataTable.run, MetadataTable.insert] at hrun
    split_ifs at hrun with hcompatible
    · cases hrun
      exact ⟨rfl, rfl⟩
    · cases hrun

theorem findLatestById_keeps {recordId : String} {result : Result FileMetadataRecord}
    (h : RunsOn metadataSchema (findLatestById codec partition recordId) x result x') : x' = x := by
  obtain ⟨answer, x₁, hanswer, hpure⟩ := runsOn_bind.mp h
  obtain ⟨-, rfl⟩ := runsOn_pure.mp hpure
  cases answer with
  | error code => exact applies_error (runsOn_execute.mp hanswer)
  | ok row =>
    have hrun := applies_ok (runsOn_execute.mp hanswer)
    cases hrun
    rfl

theorem existingClaim_ok {answer : Except Code (Option MetadataRow)} {claim : MetadataClaim}
    (h : existingClaim codec answer = .ok claim) : claim.claimed = false := by
  rcases answer with code | _ | row
  · cases h
  · cases h
  · simp only [existingClaim] at h
    cases hrow : rowToRecord codec row with
    | error e =>
      rw [hrow] at h
      cases h
    | ok record =>
      rw [hrow] at h
      cases h
      rfl

theorem findClaimBySource_keeps {fileSource : String} {result : Result MetadataClaim}
    (h : RunsOn metadataSchema (findClaimBySource codec partition fileSource) x result x') :
    x' = x ∧ ∀ claim, result = .ok claim → claim.claimed = false := by
  obtain ⟨answer, x₁, hanswer, hpure⟩ := runsOn_bind.mp h
  obtain ⟨rfl, rfl⟩ := runsOn_pure.mp hpure
  refine ⟨?_, fun claim hclaim => existingClaim_ok hclaim⟩
  cases answer with
  | error code => exact applies_error (runsOn_execute.mp hanswer)
  | ok row =>
    have hrun := applies_ok (runsOn_execute.mp hanswer)
    cases hrun
    rfl

theorem insertClaim_cases {inserted : Except Code Unit}
    (h : RunsOn metadataSchema (insertClaim codec partition record) x inserted x') :
    (inserted = .ok () ∧ ∃ row, x'.rows = x.rows ++ [row]) ∨
      ((∃ code, inserted = .error code) ∧ x' = x) := by
  obtain ⟨createdAt, x₁, hnow, hinsert⟩ := runsOn_bind.mp h
  obtain rfl := runsOn_now.mp hnow
  rcases run_insertVersion hinsert with ⟨hok, hrows⟩ | herror
  · exact .inl ⟨hok, _, hrows⟩
  · exact .inr herror

theorem insertClaim_fails {code : Code} :
    RunsOn metadataSchema (insertClaim codec partition record) x (.error code) x :=
  runsOn_bind.mpr ⟨0, x, runsOn_now.mpr rfl, runsOn_execute.mpr (.failed code)⟩

theorem lostClaim_keeps {code : Code} {result : Result MetadataClaim}
    (h : RunsOn metadataSchema (lostClaim codec partition record code) x result x') :
    x' = x ∧ ∀ claim, result = .ok claim → claim.claimed = false := by
  cases code with
  | unprepared =>
    obtain ⟨rfl, rfl⟩ := runsOn_pure.mp h
    exact ⟨rfl, by simp⟩
  | failed errstr =>
    obtain ⟨rfl, rfl⟩ := runsOn_pure.mp h
    exact ⟨rfl, by simp⟩
  | constraint =>
    obtain ⟨existing, x₁, hfind, hrest⟩ := runsOn_bind.mp h
    obtain ⟨rfl, hclaimed⟩ := findClaimBySource_keeps hfind
    cases existing with
    | ok claim =>
      obtain ⟨rfl, rfl⟩ := runsOn_pure.mp hrest
      exact ⟨rfl, hclaimed⟩
    | error e =>
      obtain ⟨rfl, rfl⟩ := runsOn_pure.mp hrest
      exact ⟨rfl, by simp⟩

/-- A claim is won exactly when a row is added. -/
theorem claim_changes {claim : MetadataClaim}
    (h : RunsOn metadataSchema (claimForWriteInTransaction codec partition record) x (.ok claim) x') :
    x' ≠ x ↔ claim.claimed = true := by
  obtain ⟨existing, x₁, hfind, hrest⟩ := runsOn_bind.mp h
  obtain ⟨rfl, hclaimed⟩ := findClaimBySource_keeps hfind
  cases existing with
  | ok found =>
    obtain ⟨hfound, rfl⟩ := runsOn_pure.mp hrest
    cases hfound
    simp [hclaimed claim rfl]
  | error e =>
    obtain ⟨inserted, x₂, hinsert, hlast⟩ := runsOn_bind.mp hrest
    rcases insertClaim_cases hinsert with ⟨rfl, row, hrows⟩ | ⟨⟨code, rfl⟩, rfl⟩
    · obtain ⟨hwon, rfl⟩ := runsOn_pure.mp hlast
      cases hwon
      simp only [iff_true]
      rintro rfl
      simp at hrows
    · obtain ⟨rfl, hclaimed⟩ := lostClaim_keeps hlast
      simp [hclaimed claim rfl]

theorem markReady_changes {recordId : String} {version : Int} {stored : FileMetadataRecord}
    (h : RunsOn metadataSchema (markReadyRow codec partition recordId version record) x (.ok stored)
      x') : x' ≠ x := by
  obtain ⟨answer, x₁, hanswer, hrest⟩ := runsOn_bind.mp h
  have happlies := runsOn_execute.mp hanswer
  cases answer with
  | error code =>
    obtain ⟨hstored, -⟩ := runsOn_pure.mp hrest
    cases hstored
  | ok changes =>
    have hrun := applies_ok happlies
    simp only at hrest
    split_ifs at hrest with hpositive
    · obtain ⟨-, rfl⟩ := runsOn_pure.mp hrest
      cases hrun
      obtain ⟨row, hrow, hmatch⟩ := List.countP_pos_iff.mp hpositive
      refine MetadataTable.update_ne hrow fun hsame => ?_
      rw [MetadataTable.markRow, if_pos hmatch] at hsame
      have hready := congrArg MetadataRow.state hsame
      simp only [MetadataTable.isClaimingVersionOf, Bool.and_eq_true, beq_iff_eq] at hmatch
      rw [hmatch.1.2] at hready
      cases hready
    · obtain ⟨probe, x₂, -, hpure⟩ := runsOn_bind.mp hrest
      obtain ⟨hstored, -⟩ := runsOn_pure.mp hpure
      cases hstored

theorem storeNextVersion_changes {existing stored : FileMetadataRecord} {createdAt : Int}
    (h : RunsOn metadataSchema (storeNextVersion codec partition record existing createdAt) x
      (.ok stored) x') : x' ≠ x := by
  obtain ⟨cleared, x₁, hclear, hrest⟩ := runsOn_bind.mp h
  cases cleared with
  | error code =>
    obtain ⟨hstored, -⟩ := runsOn_pure.mp hrest
    cases hstored
  | ok changes =>
    have hrun := applies_ok (runsOn_execute.mp hclear)
    cases hrun
    obtain ⟨inserted, x₂, hinsert, hlast⟩ := runsOn_bind.mp hrest
    rcases run_insertVersion hinsert with ⟨rfl, hrows⟩ | ⟨⟨code, rfl⟩, rfl⟩
    · obtain ⟨-, rfl⟩ := runsOn_pure.mp hlast
      rintro rfl
      have hlength := congrArg List.length hrows
      simp [MetadataTable.update] at hlength
    · obtain ⟨hstored, -⟩ := runsOn_pure.mp hlast
      cases hstored

theorem update_changes {stored : FileMetadataRecord}
    (h : RunsOn metadataSchema (updateInTransaction codec partition record) x (.ok stored) x') :
    x' ≠ x := by
  obtain ⟨found, x₁, hfind, hrest⟩ := runsOn_bind.mp h
  obtain rfl := findLatestById_keeps hfind
  cases found with
  | error e =>
    obtain ⟨hstored, -⟩ := runsOn_pure.mp hrest
    cases hstored
  | ok existing =>
    simp only at hrest
    split at hrest
    · obtain ⟨hstored, -⟩ := runsOn_pure.mp hrest
      cases hstored
    · obtain ⟨createdAt, x₂, hnow, hstore⟩ := runsOn_bind.mp hrest
      obtain rfl := runsOn_now.mp hnow
      exact storeNextVersion_changes hstore

/-- Reclaiming only deletes rows, and counts them. -/
theorem deleteVictims_counts {victims : List (String × Int)} {start reclaimed : Int}
    (h : RunsOn metadataSchema (deleteVictims partition start victims) x (.ok reclaimed) x') :
    x'.rows.Sublist x.rows ∧ (x'.rows.length : Int) + reclaimed = x.rows.length + start := by
  induction victims generalizing start x with
  | nil =>
    obtain ⟨hreclaimed, rfl⟩ := runsOn_pure.mp h
    cases hreclaimed
    exact ⟨.refl _, rfl⟩
  | cons victim victims ih =>
    obtain ⟨answer, x₁, hdelete, hrest⟩ := runsOn_bind.mp h
    cases answer with
    | error code =>
      obtain ⟨hreclaimed, -⟩ := runsOn_pure.mp hrest
      cases hreclaimed
    | ok changes =>
      have hrun := applies_ok (runsOn_execute.mp hdelete)
      cases hrun
      obtain ⟨hsublist, hcount⟩ := ih hrest
      have hlength := x.length_delete (MetadataTable.isClaimingVersionOf partition victim.1 victim.2)
      exact ⟨hsublist.trans List.filter_sublist, by omega⟩

theorem reclaim_changes {olderThan limit reclaimed : Int} {sources : List String}
    (h : RunsOn metadataSchema (reclaimStaleClaimingStatements partition olderThan limit sources) x
      (.ok reclaimed) x') : x' = x ↔ reclaimed = 0 := by
  unfold reclaimStaleClaimingStatements at h
  split at h
  · obtain ⟨hreclaimed, rfl⟩ := runsOn_pure.mp h
    cases hreclaimed
    simp
  · obtain ⟨answer, x₁, hselect, hrest⟩ := runsOn_bind.mp h
    cases answer with
    | error code =>
      obtain ⟨hreclaimed, -⟩ := runsOn_pure.mp hrest
      cases hreclaimed
    | ok victims =>
      have hrun := applies_ok (runsOn_execute.mp hselect)
      simp only [metadataSchema, MetadataTable.run] at hrun
      split_ifs at hrun
      cases hrun
      obtain ⟨hsublist, hcount⟩ := deleteVictims_counts hrest
      constructor
      · rintro rfl
        omega
      · rintro rfl
        exact MetadataTable.ext (hsublist.eq_of_length (by omega))

end Operations

/-! ## They give up at the first failing statement -/

section FailsFast
variable (codec : RecordCodec) (partition : String) (record : FileMetadataRecord)

theorem findClaimBySource_failsFast (fileSource : String) :
    FailsFast (findClaimBySource codec partition fileSource) :=
  ⟨fun _ => ⟨_, rfl⟩, fun _ => trivial⟩

theorem insertClaim_failsFast : FailsFast (insertClaim codec partition record) :=
  fun _ => ⟨fun _ => ⟨_, rfl⟩, fun _ => trivial⟩

theorem markReadyRow_failsFast (recordId : String) (version : Int) :
    FailsFast (markReadyRow codec partition recordId version record) := by
  refine ⟨fun code => ⟨_, rfl⟩, fun changes => ?_⟩
  change FailsFast (if 0 < changes then _ else _)
  split
  · trivial
  · exact ⟨fun _ => ⟨_, rfl⟩, fun _ => trivial⟩

theorem storeNextVersion_failsFast (existing : FileMetadataRecord) (createdAt : Int) :
    FailsFast (storeNextVersion codec partition record existing createdAt) :=
  ⟨fun _ => ⟨_, rfl⟩, fun _ => ⟨fun _ => ⟨_, rfl⟩, fun _ => trivial⟩⟩

theorem deleteVictims_failsFast (victims : List (String × Int)) (reclaimed : Int) :
    FailsFast (deleteVictims partition reclaimed victims) := by
  induction victims generalizing reclaimed with
  | nil => trivial
  | cons victim victims ih => exact ⟨fun _ => ⟨_, rfl⟩, fun changes => ih _⟩

theorem reclaim_failsFast (olderThan limit : Int) (sources : List String) :
    FailsFast (reclaimStaleClaimingStatements partition olderThan limit sources) := by
  unfold reclaimStaleClaimingStatements
  split
  · trivial
  · exact ⟨fun _ => ⟨_, rfl⟩, fun victims => deleteVictims_failsFast partition victims 0⟩

end FailsFast

/-! ## A transaction of its own -/

section OwnTransaction
variable {α : Type} {p : Statements (Result α)} {d : MetadataTable} {t : Events metadataSchema}
variable {result : Result α} {c c' : Connection MetadataTable}

theorem control_losesCommit {k : Control} (hk : k ≠ .commit) {r : Except Code Unit}
    (h : (control k).Performs (Acts metadataSchema) c t r c') : ¬LosesCommit t := by
  obtain ⟨-, rfl⟩ := Program.performs_perform.mp h
  rintro ⟨before, code, after, hmem, -⟩
  cases List.mem_singleton.mp hmem
  exact hk rfl

theorem rollback_ends {r : Except Code Unit} {x : Option (Transaction MetadataTable)}
    (h : (control .rollback).Performs (Acts metadataSchema) ⟨d, x⟩ t r c') : c' = ⟨d, none⟩ := by
  obtain ⟨hacts, rfl⟩ := Program.performs_perform.mp h
  cases hacts with
  | controlAborts _ hk => exact absurd rfl hk.1
  | controlFails _ hnone =>
    cases hnone rfl
    rfl
  | control heffect =>
    cases x with
    | none => cases heffect
    | some transaction =>
      cases heffect
      rfl

/-- Without a transaction there is nothing that a failing `COMMIT` could lose. -/
theorem commit_without {r : Except Code Unit}
    (h : (control .commit).Performs (Acts metadataSchema) ⟨d, none⟩ t r c') :
    c' = ⟨d, none⟩ ∧ ¬LosesCommit t := by
  obtain ⟨hacts, rfl⟩ := Program.performs_perform.mp h
  constructor
  · cases hacts with
    | controlFails => rfl
    | controlAborts => rfl
    | control heffect => cases heffect
  · rintro ⟨before, code, after, hmem, hview⟩
    cases List.mem_singleton.mp hmem
    exact hview rfl

/-- A `COMMIT` either makes the changes durable, or it fails and nothing is durable. -/
theorem commit_cases {x : MetadataTable} {r : Except Code Unit}
    (h : (control .commit).Performs (Acts metadataSchema) ⟨d, some { current := x }⟩ t r c') :
    (c' = ⟨x, none⟩ ∧ ¬LosesCommit t) ∨ (c'.durable = d ∧ (LosesCommit t ↔ x ≠ d)) := by
  obtain ⟨hacts, rfl⟩ := Program.performs_perform.mp h
  have hloses : ∀ code after, LosesCommit [⟨⟨d, some { current := x }⟩, .control .commit,
      .error code, after⟩] ↔ x ≠ d := by
    intro code after
    constructor
    · rintro ⟨before, code', after', hmem, hview⟩
      cases List.mem_singleton.mp hmem
      exact hview
    · intro hne
      exact ⟨_, _, _, List.mem_singleton_self _, hne⟩
  cases hacts with
  | controlFails code => exact .inr ⟨rfl, hloses code _⟩
  | controlAborts code => exact .inr ⟨rfl, hloses code _⟩
  | control heffect =>
    cases heffect
    left
    refine ⟨rfl, ?_⟩
    rintro ⟨before, code, after, hmem, -⟩
    cases List.mem_singleton.mp hmem

/-- The outcome of a transaction of its own: an error that leaves everything as it was, a
committed success, or a success whose `COMMIT` has failed. -/
theorem inOwnTransaction_cases (hp : FailsFast p)
    (h : (inOwnTransaction p).Performs (Acts metadataSchema) ⟨d, none⟩ t result c') :
    ((∃ e, result = .error e) ∧ c' = ⟨d, none⟩ ∧ ¬LosesCommit t) ∨
      ∃ a x, result = .ok a ∧ RunsOn metadataSchema p d (.ok a) x ∧
        ((c'.durable = x ∧ ¬LosesCommit t) ∨ (c'.durable = d ∧ (LosesCommit t ↔ x ≠ d))) := by
  obtain ⟨began, c₁, rest, hbegin, rfl, hrest⟩ := Program.performs_call_bind.mp h
  rw [losesCommit_cons (by simp)]
  cases hbegin with
  | controlAborts _ hk => exact absurd rfl hk.2
  | controlFails code =>
    obtain ⟨rfl, rfl, rfl⟩ := hrest
    left
    exact ⟨⟨_, rfl⟩, rfl, by simp [LosesCommit]⟩
  | control heffect =>
    cases heffect
    obtain ⟨t₁, own, c₂, t₂, rfl, hown, hend⟩ := Program.performs_bind.mp hrest
    have hstatements := not_losesCommit_of_statements (onConnection_statements hown)
    rw [losesCommit_append, or_iff_right hstatements]
    have hcases := onConnection_failsFast hp hown
    cases own with
    | error e =>
      obtain ⟨t₃, r, c₃, t₄, rfl, hrollback, rfl, rfl, rfl⟩ := Program.performs_bind.mp hend
      left
      refine ⟨⟨e, rfl⟩, ?_, ?_⟩
      · rcases hcases with ⟨x, -, rfl⟩ | ⟨-, rfl⟩ <;> exact rollback_ends hrollback
      · rw [List.append_nil]
        exact control_losesCommit (by simp) hrollback
    | ok a =>
      obtain ⟨t₃, r, c₃, t₄, rfl, hcommit, rfl, rfl, rfl⟩ := Program.performs_bind.mp hend
      rcases hcases with ⟨x, hruns, rfl⟩ | ⟨⟨e, he⟩, -⟩
      · right
        rw [List.append_nil]
        refine ⟨a, x, rfl, hruns, ?_⟩
        rcases commit_cases hcommit with ⟨rfl, hkept⟩ | hlost
        · exact .inl ⟨rfl, hkept⟩
        · exact .inr hlost
      · cases he

/-- Where a success of `q` tells whether there were changes, it is a committed one exactly
when no `COMMIT` fails that holds changes. -/
theorem inOwnTransaction_committed {q : Statements (Result α)} (hp : FailsFast p)
    (hq : ∀ a x, RunsOn metadataSchema p d (.ok a) x → RunsOn metadataSchema q d (.ok a) x)
    (htold : ∀ a x, RunsOn metadataSchema q d (.ok a) d → RunsOn metadataSchema q d (.ok a) x →
      x = d)
    (h : (inOwnTransaction p).Performs (Acts metadataSchema) ⟨d, none⟩ t result c') :
    Committed q d result c' ↔ ¬LosesCommit t := by
  rcases inOwnTransaction_cases hp h with ⟨⟨e, rfl⟩, hc, hkept⟩ | ⟨a, x, rfl, hruns, hcommit⟩
  · exact iff_of_true hc hkept
  · rcases hcommit with ⟨rfl, hkept⟩ | ⟨hlost, hloses⟩
    · exact iff_of_true (hq a _ hruns) hkept
    · rw [hloses, not_not]
      constructor
      · intro hcommitted
        rw [Committed, hlost] at hcommitted
        exact htold a x hcommitted (hq a x hruns)
      · rintro rfl
        rw [Committed, hlost]
        exact hq a _ hruns

end OwnTransaction

/-! ## The writes -/

section Writes
variable {codec : RecordCodec} {d : MetadataTable} {t : Events metadataSchema}
variable {c' : Connection MetadataTable} {partition : String} {record : FileMetadataRecord}

theorem markReadyLocked_committed {recordId : String} {version : Int}
    {result : Result FileMetadataRecord}
    (h : (markReadyLocked codec partition recordId version record).Performs (Acts metadataSchema)
      ⟨d, none⟩ t result c') :
    Committed (markReadyRow codec partition recordId version record) d result c' ↔ ¬LosesCommit t :=
  inOwnTransaction_committed (markReadyRow_failsFast codec partition record recordId version)
    (fun _ _ hruns => hruns) (fun _ _ hunchanged _ => absurd rfl (markReady_changes hunchanged)) h

theorem reclaimStaleClaimingLocked_committed {olderThan limit : Int} {sources : List String}
    {result : Result Int}
    (h : (reclaimStaleClaimingLocked partition olderThan limit sources).Performs
      (Acts metadataSchema) ⟨d, none⟩ t result c') :
    Committed (reclaimStaleClaimingStatements partition olderThan limit sources) d result c' ↔
      ¬LosesCommit t :=
  inOwnTransaction_committed (reclaim_failsFast partition olderThan limit sources)
    (fun _ _ hruns => hruns)
    (fun _ _ hunchanged hruns => (reclaim_changes hruns).mpr ((reclaim_changes hunchanged).mp rfl)) h

theorem updateLocked_committed {result : Result FileMetadataRecord}
    (h : (updateLocked codec partition record).Performs (Acts metadataSchema) ⟨d, none⟩ t result c') :
    Committed (updateInTransaction codec partition record) d result c' ↔ ¬LosesCommit t := by
  obtain ⟨t₁, found, c₁, t₂, rfl, hfind, hrest⟩ := Program.performs_bind.mp h
  obtain ⟨x, hfound, rfl⟩ := onConnection_autocommits hfind
  obtain rfl := findLatestById_keeps hfound
  rw [losesCommit_append,
    or_iff_right (not_losesCommit_of_statements (onConnection_statements hfind))]
  cases found with
  | error e =>
    obtain ⟨rfl, rfl, rfl⟩ := hrest
    exact iff_of_true rfl (by simp [LosesCommit])
  | ok existing =>
    cases hrefusal : updateRefusal record existing with
    | some e =>
      simp only [hrefusal] at hrest
      obtain ⟨rfl, rfl, rfl⟩ := hrest
      exact iff_of_true rfl (by simp [LosesCommit])
    | none =>
      simp only [hrefusal] at hrest
      obtain ⟨t₃, createdAt, c₂, t₄, rfl, hnow, hown⟩ := Program.performs_bind.mp hrest
      obtain ⟨x, hclock, rfl⟩ := onConnection_autocommits hnow
      obtain rfl := runsOn_now.mp hclock
      rw [losesCommit_append,
        or_iff_right (not_losesCommit_of_statements (onConnection_statements hnow))]
      refine inOwnTransaction_committed (storeNextVersion_failsFast codec partition record existing
        createdAt) (fun a x hruns => ?_)
        (fun _ _ hunchanged _ => absurd rfl (update_changes hunchanged)) hown
      refine runsOn_bind.mpr ⟨_, _, hfound, ?_⟩
      simp only [hrefusal]
      exact runsOn_bind.mpr ⟨_, _, hclock, hruns⟩

/-- After an insertion that failed, a claim only reads. -/
theorem lostClaim_committed {code : Code} {e : Error} {result : Result MetadataClaim}
    (hfind : RunsOn metadataSchema (findClaimBySource codec partition record.fileSource) d (.error e)
      d)
    (h : (onConnection (lostClaim codec partition record code)).Performs (Acts metadataSchema)
      ⟨d, none⟩ t result c') :
    Committed (claimForWriteInTransaction codec partition record) d result c' := by
  obtain ⟨x, hlost, rfl⟩ := onConnection_autocommits h
  obtain ⟨rfl, -⟩ := lostClaim_keeps hlost
  cases result with
  | error e => rfl
  | ok claim =>
    exact runsOn_bind.mpr ⟨_, _, hfind, runsOn_bind.mpr ⟨_, _, insertClaim_fails, hlost⟩⟩

/-- The end of a claim whose insertion succeeded or failed, in the transaction or, where the
reading before it has lost the transaction, on its own. -/
theorem insertClaim_committed {e : Error} {result : Result MetadataClaim}
    {open? : Option (Transaction MetadataTable)}
    (hopen : open? = some { current := d } ∨ open? = none)
    (hfind : RunsOn metadataSchema (findClaimBySource codec partition record.fileSource) d (.error e)
      d)
    (h : (onConnection (insertClaim codec partition record) >>= fun inserted => match inserted with
      | .ok () => control .commit >>= fun _ => pure (wonClaim record)
      | .error code => control .rollback >>= fun _ =>
        onConnection (lostClaim codec partition record code)).Performs (Acts metadataSchema)
      ⟨d, open?⟩ t result c') :
    Committed (claimForWriteInTransaction codec partition record) d result c' ↔ ¬LosesCommit t := by
  obtain ⟨t₁, inserted, c₁, t₂, rfl, hinsert, hrest⟩ := Program.performs_bind.mp h
  rw [losesCommit_append,
    or_iff_right (not_losesCommit_of_statements (onConnection_statements hinsert))]
  have hcases : (∃ x, RunsOn metadataSchema (insertClaim codec partition record) d inserted x ∧
      (c₁ = ⟨d, some { current := x }⟩ ∨ c₁ = ⟨x, none⟩)) ∨
      ((∃ code, inserted = .error code) ∧ c₁ = ⟨d, none⟩) := by
    rcases hopen with rfl | rfl
    · rcases onConnection_failsFast (insertClaim_failsFast codec partition record) hinsert with
        ⟨x, hruns, hc⟩ | hlost
      · exact .inl ⟨x, hruns, .inl hc⟩
      · exact .inr hlost
    · obtain ⟨x, hruns, hc⟩ := onConnection_autocommits hinsert
      exact .inl ⟨x, hruns, .inr hc⟩
  cases inserted with
  | ok u =>
    obtain ⟨x, hruns, hc⟩ := hcases.resolve_right (by simp)
    obtain ⟨t₃, r, c₃, t₄, rfl, hcommit, rfl, rfl, rfl⟩ := Program.performs_bind.mp hrest
    have hwon : RunsOn metadataSchema (claimForWriteInTransaction codec partition record) d
        (wonClaim record) x :=
      runsOn_bind.mpr ⟨_, _, hfind, runsOn_bind.mpr ⟨_, _, hruns, runsOn_pure.mpr ⟨rfl, rfl⟩⟩⟩
    rw [List.append_nil]
    rcases hc with rfl | rfl
    · rcases commit_cases hcommit with ⟨rfl, hkept⟩ | ⟨hlost, hloses⟩
      · exact iff_of_true hwon hkept
      · refine iff_of_false ?_ (not_not.mpr (hloses.mpr ((claim_changes hwon).mpr rfl)))
        intro (hcommitted : RunsOn metadataSchema _ d (wonClaim record) c'.durable)
        rw [hlost] at hcommitted
        exact absurd rfl ((claim_changes hcommitted).mpr rfl)
    · obtain ⟨rfl, hkept⟩ := commit_without hcommit
      exact iff_of_true hwon hkept
  | error code =>
    obtain ⟨t₃, r, c₂, t₄, rfl, hrollback, hlost⟩ := Program.performs_bind.mp hrest
    have hended : c₂ = ⟨d, none⟩ := by
      rcases hcases with ⟨x, hruns, hc⟩ | ⟨-, rfl⟩
      · rcases insertClaim_cases hruns with ⟨hok, -⟩ | ⟨-, rfl⟩
        · cases hok
        · rcases hc with rfl | rfl <;> exact rollback_ends hrollback
      · exact rollback_ends hrollback
    subst hended
    refine iff_of_true (lostClaim_committed hfind hlost) ?_
    rw [losesCommit_append]
    exact not_or.mpr ⟨control_losesCommit (by simp) hrollback,
      not_losesCommit_of_statements (onConnection_statements hlost)⟩

theorem claimForWriteLocked_committed {result : Result MetadataClaim}
    (h : (claimForWriteLocked codec partition record).Performs (Acts metadataSchema) ⟨d, none⟩ t
      result c') :
    Committed (claimForWriteInTransaction codec partition record) d result c' ↔ ¬LosesCommit t := by
  obtain ⟨t₁, quick, c₁, t₂, rfl, hquick, hrest⟩ := Program.performs_bind.mp h
  obtain ⟨x, hfind, rfl⟩ := onConnection_autocommits hquick
  obtain ⟨rfl, -⟩ := findClaimBySource_keeps hfind
  rw [losesCommit_append,
    or_iff_right (not_losesCommit_of_statements (onConnection_statements hquick))]
  cases quick with
  | ok claim =>
    obtain ⟨rfl, rfl, rfl⟩ := hrest
    exact iff_of_true (runsOn_bind.mpr ⟨_, _, hfind, runsOn_pure.mpr ⟨rfl, rfl⟩⟩)
      (by simp [LosesCommit])
  | error e =>
    obtain ⟨began, c₁, rest, hbegin, rfl, hbegun⟩ := Program.performs_call_bind.mp hrest
    rw [losesCommit_cons (by simp)]
    cases hbegin with
    | controlAborts _ hk => exact absurd rfl hk.2
    | controlFails code =>
      obtain ⟨rfl, rfl, rfl⟩ := hbegun
      exact iff_of_true rfl (by simp [LosesCommit])
    | control heffect =>
      cases heffect
      obtain ⟨t₃, existing, c₂, t₄, rfl, hexisting, hlast⟩ := Program.performs_bind.mp hbegun
      rw [losesCommit_append,
        or_iff_right (not_losesCommit_of_statements (onConnection_statements hexisting))]
      have hcases := onConnection_failsFast
        (findClaimBySource_failsFast codec partition record.fileSource) hexisting
      cases existing with
      | ok claim =>
        obtain ⟨x, hclaim, rfl⟩ := hcases.resolve_right (by simp)
        obtain ⟨rfl, -⟩ := findClaimBySource_keeps hclaim
        obtain ⟨t₅, r, c₄, t₆, rfl, hcommit, rfl, rfl, rfl⟩ := Program.performs_bind.mp hlast
        have hruns : RunsOn metadataSchema (claimForWriteInTransaction codec partition record) x
            (.ok claim) x := runsOn_bind.mpr ⟨_, _, hclaim, runsOn_pure.mpr ⟨rfl, rfl⟩⟩
        rw [List.append_nil]
        rcases commit_cases hcommit with ⟨rfl, hkept⟩ | ⟨hlost, hloses⟩
        · exact iff_of_true hruns hkept
        · refine iff_of_true ?_ (fun hloss => hloses.mp hloss rfl)
          rw [Committed, hlost]
          exact hruns
      | error e' =>
        rcases hcases with ⟨x, hclaim, rfl⟩ | ⟨-, rfl⟩
        · obtain ⟨rfl, -⟩ := findClaimBySource_keeps hclaim
          exact insertClaim_committed (.inl rfl) hfind hlast
        · exact insertClaim_committed (.inr rfl) hfind hlast

/-- **A write in a transaction of its own tells the truth**: a success is durable, and an error
leaves no change and no open transaction, exactly when no `COMMIT` fails that holds changes. -/
theorem locked_committed_iff {w : LockedWrite} {result : Result w.Value}
    (h : (w.locked codec).Performs (Acts metadataSchema) ⟨d, none⟩ t result c') :
    Committed (w.operation codec) d result c' ↔ ¬LosesCommit t := by
  cases w with
  | claimForWrite partition record => exact claimForWriteLocked_committed h
  | markReady partition recordId version record => exact markReadyLocked_committed h
  | update partition record => exact updateLocked_committed h
  | reclaimStaleClaiming partition olderThan limit sources =>
    exact reclaimStaleClaimingLocked_committed h

/-! ## A claim that is reclaimed -/

/-- A claim of second 0 that nobody has marked ready. -/
def staleRow : MetadataRow where
  partitionId := "p"
  id := "p:1"
  version := 1
  isLatest := true
  previousVersion := none
  fileSource := "/f"
  kind := "k"
  name := ""
  createdAt := 0
  createdBy := ""
  data := "{}"
  state := .claiming

def staleTable : MetadataTable where
  rows := [staleRow]

def reclaimEvents (committed : Except Code Unit) (c : Connection MetadataTable) :
    Events metadataSchema :=
  let opened (x : MetadataTable) : Connection MetadataTable := ⟨staleTable, some { current := x }⟩
  [⟨⟨staleTable, none⟩, .control .begin, .ok (), opened staleTable⟩,
    ⟨opened staleTable, .statement (.execute (.selectStaleClaiming "p" 10 ["/f"] 5)),
      .ok [("p:1", (1 : Int))], opened staleTable⟩,
    ⟨opened staleTable, .statement (.execute (.reclaimClaimingRow "p" "p:1" 1)), .ok (1 : Nat), opened {}⟩,
    ⟨opened {}, .control .commit, committed, c⟩]

theorem performs_reclaim {committed : Except Code Unit} {c : Connection MetadataTable}
    (h : Acts metadataSchema ⟨staleTable, some { current := {} }⟩ (.control .commit) committed c) :
    (reclaimStaleClaimingLocked "p" 10 5 ["/f"]).Performs (Acts metadataSchema) ⟨staleTable, none⟩
      (reclaimEvents committed c) (.ok 1) c := by
  have hselect : MetadataTable.run (.selectStaleClaiming "p" 10 ["/f"] 5) staleTable =
      .ok ([("p:1", 1)], staleTable) := by
    simp [MetadataTable.run, MetadataTable.maxVariables, MetadataTable.isStaleClaim, staleTable,
      staleRow]
  have hdelete : MetadataTable.run (.reclaimClaimingRow "p" "p:1" 1) staleTable = .ok (1, {}) := by
    simp [MetadataTable.run, MetadataTable.deleteCounting, MetadataTable.delete,
      MetadataTable.isClaimingVersionOf, MetadataTable.isVersionOf, staleTable, staleRow]
  exact ⟨_, _, _, .control rfl, rfl, _, _, _, .statement (.executed hselect), rfl,
    _, _, _, .statement (.executed hdelete), rfl, _, _, _, h, rfl, rfl, rfl, rfl⟩

/-- A codec that stands for the one of the deployment: a reclaim reads no record. -/
def idCodec : RecordCodec where
  dump record := record.id
  parse text := .ok { id := text }

theorem reclaim_committed : Committed
    (LockedWrite.operation idCodec (.reclaimStaleClaiming "p" 10 5 ["/f"])) staleTable (.ok 1)
    ⟨{}, none⟩ := by
  refine (locked_committed_iff (w := .reclaimStaleClaiming "p" 10 5 ["/f"])
    (performs_reclaim (.control rfl))).mpr ?_
  simp [LosesCommit, reclaimEvents]

/-- The `COMMIT` of a reclaim fails: one reclaimed row is reported, and none is deleted. -/
theorem reclaim_not_committed : ∃ t c',
    (reclaimStaleClaimingLocked "p" 10 5 ["/f"]).Performs (Acts metadataSchema) ⟨staleTable, none⟩ t
      (.ok 1) c' ∧ c'.durable = staleTable ∧ c'.transaction.isSome ∧
    ¬Committed (reclaimStaleClaimingStatements "p" 10 5 ["/f"]) staleTable (.ok 1) c' := by
  have hrun := performs_reclaim (.controlFails (.failed "database or disk is full") (by simp))
  refine ⟨_, _, hrun, rfl, rfl, fun hcommitted => ?_⟩
  have hcount := (reclaim_changes hcommitted).mp rfl
  cases hcount

end Writes

end FileService.Sqlite
