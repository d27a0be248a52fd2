import FileService.Postgres.MetadataRepository

/-!
# The version chains of the records

Callers that update one record read its latest version before they begin their
transactions. The primary key lets only one of them install the next version.
So the versions of a record that was never deleted have no gap, and what was
stored as ready stays as it is.
-/
namespace FileService.Postgres.Metadata
open FileService.Common FileService.Domain FileService.Infra FileService.Interaction

variable {ι : Type} {partition id : String} {n : Nat}

/-! ## Chains -/

/-- The versions of the record are `1` to `n`, and the last one is the latest; a claim has no
other version beside it. -/
structure Chain (rows : List Row) (partition id : String) (n : Nat) : Prop where
  versions : ∀ v : Int, (∃ row ∈ rows, row.isVersionOf partition id v = true) ↔ 1 ≤ v ∧ v ≤ n
  latest : ∀ row ∈ rows, row.isOf partition id = true → (row.isLatest = true ↔ row.version = n)
  claiming : ∀ row ∈ rows, row.isOf partition id = true → row.state = .claiming → n = 1

section Rows
variable {table table' : Table} {rows rows' : List Row} {row old : Row}

theorem isOf_iff : row.isOf partition id = true ↔ row.partitionId = partition ∧ row.id = id := by
  simp [Row.isOf]

theorem isVersionOf_iff {v : Int} : row.isVersionOf partition id v = true ↔
    row.isOf partition id = true ∧ row.version = v := by
  simp [Row.isVersionOf]

instance : Std.Symm Row.Compatible where
  symm _ _ h :=
    ⟨Ne.symm h.1, fun ha hb => Ne.symm (h.2.1 hb ha), fun ha hb => Ne.symm (h.2.2 hb ha)⟩

/-- The primary key. -/
theorem Table.eq_of_key (table : Table) (hrow : row ∈ table.rows) (hold : old ∈ table.rows)
    (hof : row.isOf old.partitionId old.id = true) (hversion : row.version = old.version) :
    row = old := by
  by_contra hne
  obtain ⟨hpartition, hid⟩ := isOf_iff.mp hof
  refine (table.unique.forall hrow hold hne).1 ?_
  rw [hpartition, hid, hversion]

theorem Table.insert?_eq_some (h : table.insert? row = some table') :
    (∀ old ∈ table.rows, old.Compatible row) ∧ table'.rows = table.rows ++ [row] := by
  unfold Table.insert? at h
  split_ifs at h with hall
  cases h
  exact ⟨hall, rfl⟩

theorem Chain.congr (h : Chain rows partition id n)
    (hsame : ∀ row, row.isOf partition id = true → (row ∈ rows ↔ row ∈ rows')) :
    Chain rows' partition id n where
  versions v := by
    rw [← h.versions v]
    constructor
    · rintro ⟨row, hrow, hv⟩
      exact ⟨row, (hsame row (isVersionOf_iff.mp hv).1).mpr hrow, hv⟩
    · rintro ⟨row, hrow, hv⟩
      exact ⟨row, (hsame row (isVersionOf_iff.mp hv).1).mp hrow, hv⟩
  latest row hrow hof := h.latest row ((hsame row hof).mpr hrow) hof
  claiming row hrow hof := h.claiming row ((hsame row hof).mpr hrow) hof

theorem Chain.version_mem (h : Chain rows partition id n) (hrow : row ∈ rows)
    (hof : row.isOf partition id = true) : 1 ≤ row.version ∧ row.version ≤ n :=
  (h.versions row.version).mp ⟨row, hrow, isVersionOf_iff.mpr ⟨hof, rfl⟩⟩

/-- A record that has a version has a latest one. -/
theorem Chain.exists_latest (h : Chain rows partition id n) (hn : n ≠ 0) :
    ∃ row ∈ rows, row.isOf partition id = true ∧ row.isLatest = true ∧ row.version = n := by
  obtain ⟨row, hrow, hv⟩ := (h.versions n).mpr ⟨by omega, le_rfl⟩
  obtain ⟨hof, hversion⟩ := isVersionOf_iff.mp hv
  exact ⟨row, hrow, hof, (h.latest row hrow hof).mpr hversion, hversion⟩

/-- A claim is the first version of its record. -/
theorem Chain.claimed (h : Chain rows partition id n) (hall : ∀ old ∈ rows, old.Compatible row)
    (hversion : row.version = 1) (hlatest : row.isLatest = true) :
    ∃ m, Chain (rows ++ [row]) partition id m := by
  by_cases hof : row.isOf partition id = true
  · obtain ⟨rfl, rfl⟩ := isOf_iff.mp hof
    have hn : n = 0 := by
      by_contra hn
      obtain ⟨old, hold, hofold, hlatestold, -⟩ := h.exists_latest hn
      obtain ⟨hpartition, hid⟩ := isOf_iff.mp hofold
      exact (hall old hold).2.1 hlatestold hlatest (by rw [hpartition, hid])
    subst hn
    have hnone : ∀ old ∈ rows, ¬old.isOf row.partitionId row.id = true := by
      intro old hold hofold
      have hbounds := h.version_mem hold hofold
      omega
    refine ⟨1, ⟨fun v => ?_, ?_, fun _ _ _ _ => rfl⟩⟩
    · constructor
      · rintro ⟨old, hold, hv⟩
        obtain ⟨hofold, rfl⟩ := isVersionOf_iff.mp hv
        rcases List.mem_append.mp hold with hold | hold
        · exact absurd hofold (hnone old hold)
        · obtain rfl := List.mem_singleton.mp hold
          omega
      · rintro ⟨hlow, hhigh⟩
        refine ⟨row, by simp, isVersionOf_iff.mpr ⟨hof, ?_⟩⟩
        omega
    · intro old hold hofold
      rcases List.mem_append.mp hold with hold | hold
      · exact absurd hofold (hnone old hold)
      · obtain rfl := List.mem_singleton.mp hold
        simp [hlatest, hversion]
  · refine ⟨n, h.congr fun other hother => ?_⟩
    have hne : other ≠ row := by
      rintro rfl
      exact hof hother
    simp [hne]

/-- Marking a claim changes neither the versions nor which one is the latest. -/
theorem Chain.marked (h : Chain rows partition id n) (marking : Marking) :
    Chain (rows.map marking.apply) partition id n := by
  have hkeeps := marking.keepsIndexes_apply
  have hof : ∀ row, (marking.apply row).isOf partition id = row.isOf partition id := by
    intro row
    rw [Row.isOf, Row.isOf, hkeeps.partitionId, hkeeps.id]
  have hlatest : ∀ row, (marking.apply row).isLatest = row.isLatest := by
    intro row
    unfold Marking.apply
    split_ifs <;> rfl
  have hstate : ∀ row, (marking.apply row).state = .claiming → row.state = .claiming := by
    intro row
    unfold Marking.apply
    split_ifs
    · simp [Marking.marked]
    · exact fun h => h
  constructor
  case versions =>
    intro v
    rw [← h.versions v]
    simp only [List.mem_map, exists_exists_and_eq_and, isVersionOf_iff, hof, hkeeps.version]
  case latest =>
    intro _ hmapped hofrow
    obtain ⟨row, hrow, rfl⟩ := List.mem_map.mp hmapped
    rw [hlatest, hkeeps.version]
    exact h.latest row hrow ((hof row).symm.trans hofrow)
  case claiming =>
    intro _ hmapped hofrow hclaiming
    obtain ⟨row, hrow, rfl⟩ := List.mem_map.mp hmapped
    exact h.claiming row hrow ((hof row).symm.trans hofrow) (hstate row hclaiming)

/-- A claim that is taken away was the only version. -/
theorem Chain.released (h : Chain table.rows partition id n) {victims : Row → Bool}
    (hvictims : ∀ row, victims row = true → row.state = .claiming) :
    ∃ m, Chain (table.delete victims).rows partition id m := by
  by_cases hany : ∃ row ∈ table.rows, row.isOf partition id = true ∧ victims row = true
  · obtain ⟨row, hrow, hof, hvictim⟩ := hany
    have hn := h.claiming row hrow hof (hvictims row hvictim)
    subst hn
    have hbounds := h.version_mem hrow hof
    have hnone : ∀ old ∈ (table.delete victims).rows, ¬old.isOf partition id = true := by
      intro old hold hofold
      obtain ⟨hold, hkept⟩ := List.mem_filter.mp hold
      have hboundsold := h.version_mem hold hofold
      obtain ⟨hpartition, hid⟩ := isOf_iff.mp hofold
      have hsame := table.eq_of_key hrow hold (by rw [hpartition, hid]; exact hof) (by omega)
      simp [← hsame, hvictim] at hkept
    refine ⟨0, ⟨fun v => ?_, ?_, ?_⟩⟩
    · constructor
      · rintro ⟨old, hold, hv⟩
        exact absurd (isVersionOf_iff.mp hv).1 (hnone old hold)
      · omega
    · exact fun old hold hofold => absurd hofold (hnone old hold)
    · exact fun old hold hofold => absurd hofold (hnone old hold)
  · refine ⟨n, h.congr fun row hof => ?_⟩
    rw [Table.delete, List.mem_filter]
    constructor
    · intro hrow
      refine ⟨hrow, ?_⟩
      by_contra hnot
      exact hany ⟨row, hrow, hof, by simpa using hnot⟩
    · exact fun hrow => hrow.1

/-- The next version takes the place of the latest one. -/
theorem Chain.replaced {cleared : Row} (h : Chain table.rows partition id n)
    (hcleared : cleared ∈ table.rows) (hlatest : cleared.isLatest = true)
    (hready : cleared.state = .ready)
    (hall : ∀ old ∈ table.rows.map (clear cleared), old.Compatible row)
    (hrowlatest : row.isLatest = true) (hrowready : row.state = .ready)
    (hof : cleared.isOf row.partitionId row.id = true)
    (hprevious : row.isOf partition id = true →
      1 ≤ row.version - 1 ∧ row.version - 1 ≤ n) :
    ∃ m, Chain (table.rows.map (clear cleared) ++ [row]) partition id m := by
  have hkeeps := keepsIndexes_clear cleared
  have hofclear : ∀ other, (clear cleared other).isOf partition id = other.isOf partition id := by
    intro other
    rw [Row.isOf, Row.isOf, hkeeps.partitionId, hkeeps.id]
  have hversions : ∀ v : Int, (∃ other ∈ table.rows.map (clear cleared),
      other.isVersionOf partition id v = true) ↔ 1 ≤ v ∧ v ≤ n := by
    intro v
    rw [← h.versions v]
    simp only [List.mem_map, exists_exists_and_eq_and, isVersionOf_iff, hofclear, hkeeps.version]
  by_cases hrow : row.isOf partition id = true
  · obtain ⟨rfl, rfl⟩ := isOf_iff.mp hrow
    have hn : cleared.version = n := (h.latest cleared hcleared hof).mp hlatest
    obtain ⟨hlow, hhigh⟩ := hprevious hrow
    -- the primary key leaves only the number after the last one
    have hnext : row.version = n + 1 := by
      by_contra hne
      obtain ⟨other, hother, hv⟩ := (hversions row.version).mpr ⟨by omega, by omega⟩
      obtain ⟨hofother, hversion⟩ := isVersionOf_iff.mp hv
      obtain ⟨hpartition, hid⟩ := isOf_iff.mp hofother
      exact (hall other hother).1 (by rw [hpartition, hid, hversion])
    refine ⟨n + 1, ⟨fun v => ?_, ?_, ?_⟩⟩
    · have hsplit : (∃ other ∈ table.rows.map (clear cleared) ++ [row],
          other.isVersionOf row.partitionId row.id v = true) ↔ (1 ≤ v ∧ v ≤ n) ∨ v = row.version := by
        rw [← hversions v]
        simp only [List.mem_append, List.mem_singleton, or_and_right, exists_or, exists_eq_left,
          isVersionOf_iff, hrow, true_and, eq_comm (a := row.version)]
      rw [hsplit, hnext]
      omega
    · intro other hother hofother
      rcases List.mem_append.mp hother with hother | hother
      · obtain ⟨old, hold, rfl⟩ := List.mem_map.mp hother
        have hofold := (hofclear old).symm.trans hofother
        have hbounds := h.version_mem hold hofold
        have hnot : (clear cleared old).isLatest ≠ true := by
          obtain ⟨hpartition, hid⟩ := isOf_iff.mp hof
          unfold clear
          split_ifs with hcase
          · simp
          · intro hstill
            have hversion := (h.latest old hold hofold).mp hstill
            exact hcase (isVersionOf_iff.mpr
              ⟨by rw [hpartition, hid]; exact hofold, hversion.trans hn.symm⟩)
        rw [hkeeps.version]
        constructor
        · exact fun hstill => absurd hstill hnot
        · omega
      · obtain rfl := List.mem_singleton.mp hother
        simp [hrowlatest, hnext]
    · intro other hother hofother hclaiming
      rcases List.mem_append.mp hother with hother | hother
      · obtain ⟨old, hold, rfl⟩ := List.mem_map.mp hother
        have hofold := (hofclear old).symm.trans hofother
        have holdclaiming : old.state = .claiming := by
          unfold clear at hclaiming
          split_ifs at hclaiming <;> exact hclaiming
        have hone := h.claiming old hold hofold holdclaiming
        have hbounds := h.version_mem hold hofold
        obtain ⟨hpartition, hid⟩ := isOf_iff.mp hof
        have hsame := table.eq_of_key hold hcleared (by rw [hpartition, hid]; exact hofold)
          (by omega)
        rw [← hsame, holdclaiming] at hready
        cases hready
      · obtain rfl := List.mem_singleton.mp hother
        rw [hrowready] at hclaiming
        cases hclaiming
  · have hnotcleared : ¬cleared.isOf partition id = true := by
      intro hc
      obtain ⟨hp, hi⟩ := isOf_iff.mp hof
      obtain ⟨hp', hi'⟩ := isOf_iff.mp hc
      exact hrow (isOf_iff.mpr ⟨hp.symm.trans hp', hi.symm.trans hi'⟩)
    have hother : ∀ other, other.isOf partition id = true → clear cleared other = other := by
      intro other hofother
      unfold clear
      rw [if_neg]
      intro hv
      obtain ⟨hp, hi⟩ := isOf_iff.mp (isVersionOf_iff.mp hv).1
      obtain ⟨hp', hi'⟩ := isOf_iff.mp hofother
      exact hnotcleared (isOf_iff.mpr ⟨hp.symm.trans hp', hi.symm.trans hi'⟩)
    refine ⟨n, h.congr fun other hofother => ?_⟩
    have hne : other ≠ row := by
      rintro rfl
      exact hrow hofother
    simp only [List.mem_append, List.mem_map, List.mem_singleton, hne, or_false]
    constructor
    · exact fun hmem => ⟨other, hmem, hother other hofother⟩
    · rintro ⟨old, hold, rfl⟩
      rw [hofclear] at hofother
      rwa [hother old hofother]

end Rows

/-! ## What is kept -/

section Held
variable {s s' : Database ι} {row : Row}

/-- The version is there as it was stored, unless its record has been deleted. -/
def Held (s : Database ι) (row : Row) : Prop :=
  (row.partitionId, row.id) ∈ s.removed ∨ ∃ b, { row with isLatest := b } ∈ s.table.rows

/-- The ready versions of the record of that number. -/
def HoldsVersion (s : Database ι) (partition id : String) (v : Int) : Prop :=
  ∃ row, row.isVersionOf partition id v = true ∧ row.state = .ready ∧ Held s row

theorem Chain.holdsVersion (h : Chain s.table.rows partition id n) {v : Int}
    (hheld : HoldsVersion s partition id v) (hremoved : (partition, id) ∉ s.removed) :
    1 ≤ v ∧ v ≤ n := by
  obtain ⟨row, hv, -, hrow⟩ := hheld
  obtain ⟨hof, rfl⟩ := isVersionOf_iff.mp hv
  obtain ⟨rfl, rfl⟩ := isOf_iff.mp hof
  obtain ⟨b, hmem⟩ := hrow.resolve_left hremoved
  have hbounds := h.version_mem hmem hof
  exact hbounds

theorem mem_removed_noteRemoval {key : String × String} (h : key ∈ s.removed) :
    key ∈ (s.noteRemoval partition id n).removed := by
  unfold Database.noteRemoval
  split_ifs
  · exact h
  · exact List.mem_cons_of_mem _ h

/-- A version that is not a claim any more stays as it is until its record is deleted. -/
theorem Held.update (h : Held s row) (hready : row.state = .ready) {f : Row → Row}
    {hf : KeepsIndexes f} (hsame : ∀ old, old.state = .ready →
      ∃ b, f old = { old with isLatest := b }) :
    Held (s.withTable (s.table.update f hf)) row := by
  rcases h with hremoved | ⟨b, hmem⟩
  · exact .inl hremoved
  · obtain ⟨b', hb'⟩ := hsame { row with isLatest := b } hready
    exact .inr ⟨b', List.mem_map.mpr ⟨_, hmem, hb'⟩⟩

theorem Held.delete (h : Held s row) {victims : Row → Bool}
    (hkept : ∀ b, victims { row with isLatest := b } = false) :
    Held (s.withTable (s.table.delete victims)) row := by
  rcases h with hremoved | ⟨b, hmem⟩
  · exact .inl hremoved
  · exact .inr ⟨b, List.mem_filter.mpr ⟨hmem, by simp [hkept b]⟩⟩

theorem Held.run [DecidableEq ι] {i : ι} {q : Statement} {a : q.Answer} (h : Held s row)
    (hready : row.state = .ready) (hrun : Database.run i s q a s') : Held s' row := by
  have hnotclaiming : ∀ b, ({ row with isLatest := b } : Row).state ≠ .claiming := by
    intro b
    simp [hready]
  cases q with
  | claimInsert claim =>
    rcases hrun with ⟨-, table, hinsert, rfl⟩ | ⟨-, rfl, -⟩
    · rcases h with hremoved | ⟨b, hmem⟩
      · exact .inl hremoved
      · refine .inr ⟨b, ?_⟩
        rw [Database.withTable, (Table.insert?_eq_some hinsert).2]
        exact List.mem_append_left _ hmem
    · exact h
  | markReady marking =>
    obtain ⟨-, rfl⟩ := hrun
    refine h.update hready fun old hold => ⟨old.isLatest, ?_⟩
    unfold Marking.apply
    rw [if_neg]
    simp [Marking.applies, Row.isClaimingVersionOf, hold]
  | releaseClaim p k v =>
    obtain ⟨-, rfl⟩ := hrun
    refine h.delete fun b => ?_
    simp [Row.isClaimingVersionOf, hnotclaiming b]
  | reclaimStaleClaiming p olderThan sources limit =>
    obtain ⟨victims, hvictims, -, -, rfl⟩ := hrun
    refine h.delete fun b => ?_
    by_contra hvictim
    have hstale := hvictims _ (Bool.eq_true_of_not_eq_false hvictim)
    simp [Row.isStaleClaim, hready] at hstale
  | commit =>
    obtain ⟨t, table, -, -, happly, rfl⟩ := hrun
    rcases h with hremoved | ⟨b, hmem⟩
    · exact .inl hremoved
    · have hcleared : ∃ b', { row with isLatest := b' } ∈ (t.clearedTable s.table).rows := by
        unfold Transaction.clearedTable
        cases t.cleared with
        | none => exact ⟨b, hmem⟩
        | some old =>
          have hmapped := List.mem_map_of_mem (f := clear old) hmem
          unfold clear at hmapped
          split_ifs at hmapped
          · exact ⟨false, hmapped⟩
          · exact ⟨b, hmapped⟩
      obtain ⟨b', hb'⟩ := hcleared
      refine .inr ⟨b', ?_⟩
      unfold Transaction.next? at happly
      cases hinserted : t.inserted with
      | none =>
        rw [hinserted] at happly
        obtain rfl := Option.some.inj happly
        exact hb'
      | some new =>
        rw [hinserted] at happly
        rw [Database.committed, (Table.insert?_eq_some happly).2]
        exact List.mem_append_left _ hb'
  | deleteAllVersions p k =>
    obtain ⟨victims, hvictims, rfl, rfl⟩ := hrun
    rcases h with hremoved | ⟨b, hmem⟩
    · exact .inl (mem_removed_noteRemoval hremoved)
    · by_cases hvictim : victims { row with isLatest := b } = true
      · left
        obtain ⟨rfl, rfl⟩ := isOf_iff.mp (hvictims _ hvictim)
        have hpositive : s.table.rows.countP victims ≠ 0 := by
          rw [ne_eq, List.countP_eq_zero]
          exact fun hall => hall _ hmem hvictim
        simp [Database.noteRemoval, hpositive]
      · refine .inr ⟨b, ?_⟩
        have hkept : { row with isLatest := b } ∈ (s.table.delete victims).rows :=
          List.mem_filter.mpr ⟨hmem, by simpa using hvictim⟩
        unfold Database.noteRemoval
        split_ifs <;> exact hkept
  | begin =>
    obtain rfl : s' = s.withTransaction i (some {}) := hrun
    exact h
  | clearLatest p k =>
    obtain ⟨t, -, ⟨-, rfl⟩ | ⟨c, -, -, -, rfl⟩⟩ := hrun <;> exact h
  | insertVersion new =>
    obtain ⟨t, table, -, -, rfl⟩ := hrun
    exact h
  | rollback =>
    obtain rfl : s' = s.withTransaction i none := hrun
    exact h
  | borrow =>
    obtain rfl : s' = s := hrun
    exact h
  | _ =>
    obtain ⟨-, rfl⟩ := hrun
    exact h

theorem HoldsVersion.run [DecidableEq ι] {i : ι} {q : Statement} {a : q.Answer} {v : Int}
    (h : HoldsVersion s partition id v) (hrun : Database.run i s q a s') :
    HoldsVersion s' partition id v := by
  obtain ⟨row, hv, hready, hheld⟩ := h
  exact ⟨row, hv, hready, hheld.run hready hrun⟩

end Held

/-! ## The invariant -/

/-- What a transaction has changed replaces the latest version by the next one. -/
structure Replaces (s : Database ι) (t : Transaction) : Prop where
  cleared : ∀ c, t.cleared = some c → c.isLatest = true ∧ c.state = .ready
  inserted : ∀ r, t.inserted = some r → r.isLatest = true ∧ r.state = .ready ∧
    HoldsVersion s r.partitionId r.id (r.version - 1) ∧
      ∃ c, t.cleared = some c ∧ c.isOf r.partitionId r.id = true

structure Sound (s : Database ι) : Prop where
  chains : ∀ partition id, (partition, id) ∉ s.removed → ∃ n, Chain s.table.rows partition id n
  transactions : ∀ i t, s.transactions i = some t → Replaces s t
  installed : ∀ e ∈ s.installed, HoldsVersion s e.partition e.id e.version
  distinct : s.installed.Pairwise fun a b => (a.partition, a.id) ∉ s.removed →
    (a.partition, a.id, a.version) ≠ (b.partition, b.id, b.version)

/-- What a commit has done to the rows. -/
theorem Sound.committed_rows {s : Database ι} {i : ι} (h : Sound s) {t : Transaction} {table : Table}
    (ht : s.transactions i = some t) (hinserted : t.inserted.isSome = true)
    (happly : t.next? s.table = some table) : ∃ c r, t.cleared = some c ∧ t.inserted = some r ∧
      (∀ old ∈ s.table.rows.map (clear c), old.Compatible r) ∧
        table.rows = s.table.rows.map (clear c) ++ [r] := by
  obtain ⟨r, hr⟩ := Option.isSome_iff_exists.mp hinserted
  obtain ⟨-, -, -, c, hc, -⟩ := (h.transactions i t ht).inserted r hr
  unfold Transaction.next? Transaction.clearedTable at happly
  rw [hr, hc] at happly
  obtain ⟨hall, hrows⟩ := Table.insert?_eq_some happly
  exact ⟨c, r, hc, hr, hall, hrows⟩

section Steps
variable [DecidableEq ι] {s s' : Database ι} {i : ι}

/-- What the version chains ask of a statement of a caller. -/
def Minds (i : ι) (s : Database ι) : Statement → Prop
  | .claimInsert row => row.version = 1 ∧ row.isLatest = true
  | .clearLatest _ _ => ∀ t, s.transactions i = some t → t = {}
  | .insertVersion row => row.isLatest = true ∧ row.state = .ready ∧
    HoldsVersion s row.partitionId row.id (row.version - 1) ∧
      ∀ t, s.transactions i = some t →
        ∃ c, t.cleared = some c ∧ c.isOf row.partitionId row.id = true
  | .commit => ∀ t, s.transactions i = some t → t.inserted.isSome = true
  | _ => True

/-- Only a deletion removes what the record of deletions says. -/
theorem removed_run {q : Statement} {a : q.Answer} (hrun : Database.run i s q a s')
    {key : String × String} (h : key ∉ s'.removed) : key ∉ s.removed := by
  intro hremoved
  cases q with
  | claimInsert row =>
    rcases hrun with ⟨-, table, -, rfl⟩ | ⟨-, rfl, -⟩ <;> exact h hremoved
  | reclaimStaleClaiming p olderThan sources limit =>
    obtain ⟨victims, -, -, -, rfl⟩ := hrun
    exact h hremoved
  | commit =>
    obtain ⟨t, table, -, -, -, rfl⟩ := hrun
    exact h hremoved
  | deleteAllVersions p k =>
    obtain ⟨victims, -, -, rfl⟩ := hrun
    exact h (mem_removed_noteRemoval hremoved)
  | begin =>
    obtain rfl : s' = s.withTransaction i (some {}) := hrun
    exact h hremoved
  | clearLatest p k =>
    obtain ⟨t, -, ⟨-, rfl⟩ | ⟨c, -, -, -, rfl⟩⟩ := hrun <;> exact h hremoved
  | insertVersion row =>
    obtain ⟨t, table, -, -, rfl⟩ := hrun
    exact h hremoved
  | rollback =>
    obtain rfl : s' = s.withTransaction i none := hrun
    exact h hremoved
  | borrow =>
    obtain rfl : s' = s := hrun
    exact h hremoved
  | _ =>
    obtain ⟨-, rfl⟩ := hrun
    exact h hremoved

theorem Sound.chains_run (h : Sound s) {q : Statement} {a : q.Answer} (hminds : Minds i s q)
    (hrun : Database.run i s q a s') (partition id : String) (hremoved : (partition, id) ∉ s'.removed) :
    ∃ n, Chain s'.table.rows partition id n := by
  obtain ⟨n, hchain⟩ := h.chains partition id (removed_run hrun hremoved)
  cases q with
  | claimInsert row =>
    rcases hrun with ⟨-, table, hinsert, rfl⟩ | ⟨-, rfl, -⟩
    · obtain ⟨hall, hrows⟩ := Table.insert?_eq_some hinsert
      rw [Database.withTable, hrows]
      exact hchain.claimed hall hminds.1 hminds.2
    · exact ⟨n, hchain⟩
  | markReady marking =>
    obtain ⟨-, rfl⟩ := hrun
    exact ⟨n, hchain.marked marking⟩
  | releaseClaim p k v =>
    obtain ⟨-, rfl⟩ := hrun
    refine hchain.released fun row hrow => ?_
    simp only [Row.isClaimingVersionOf, Bool.and_eq_true, beq_iff_eq] at hrow
    exact hrow.2
  | reclaimStaleClaiming p olderThan sources limit =>
    obtain ⟨victims, hvictims, -, -, rfl⟩ := hrun
    refine hchain.released fun row hrow => ?_
    have hstale := hvictims row hrow
    simp only [Row.isStaleClaim, Bool.and_eq_true, beq_iff_eq] at hstale
    exact hstale.1.1.2
  | commit =>
    obtain ⟨t, table, ht, hpresent, happly, rfl⟩ := hrun
    obtain ⟨c, r, hc, hr, hall, hrows⟩ := h.committed_rows ht (hminds t ht) happly
    obtain ⟨hlatest, hready⟩ := (h.transactions i t ht).cleared c hc
    obtain ⟨hrlatest, hrready, hheld, c', hc', hof⟩ := (h.transactions i t ht).inserted r hr
    obtain rfl := Option.some.inj (hc.symm.trans hc')
    rw [Database.committed, hrows]
    refine hchain.replaced (hpresent c hc) hlatest hready hall hrlatest hrready hof fun hrof => ?_
    obtain ⟨rfl, rfl⟩ := isOf_iff.mp hrof
    exact hchain.holdsVersion hheld hremoved
  | deleteAllVersions p k =>
    obtain ⟨victims, hvictims, rfl, rfl⟩ := hrun
    refine ⟨n, hchain.congr fun row hof => ?_⟩
    have hkept : row ∈ s.table.rows → victims row = false := by
      intro hrow
      by_contra hvictim
      have htrue := Bool.eq_true_of_not_eq_false hvictim
      have hpositive : s.table.rows.countP victims ≠ 0 := by
        rw [ne_eq, List.countP_eq_zero]
        exact fun hnone => hnone row hrow htrue
      obtain ⟨rfl, rfl⟩ := isOf_iff.mp hof
      obtain ⟨hp, hk⟩ := isOf_iff.mp (hvictims row htrue)
      simp [Database.noteRemoval, hpositive, hp, hk] at hremoved
    have hrows : ((s.withTable (s.table.delete victims)).noteRemoval p k
        (s.table.rows.countP victims)).table.rows = s.table.rows.filter fun row => !victims row := by
      unfold Database.noteRemoval
      split_ifs <;> rfl
    rw [hrows, List.mem_filter]
    exact ⟨fun hrow => ⟨hrow, by simp [hkept hrow]⟩, fun hrow => hrow.1⟩
  | begin =>
    obtain rfl : s' = s.withTransaction i (some {}) := hrun
    exact ⟨n, hchain⟩
  | clearLatest p k =>
    obtain ⟨t, -, ⟨-, rfl⟩ | ⟨c, -, -, -, rfl⟩⟩ := hrun <;> exact ⟨n, hchain⟩
  | insertVersion row =>
    obtain ⟨t, table, -, -, rfl⟩ := hrun
    exact ⟨n, hchain⟩
  | rollback =>
    obtain rfl : s' = s.withTransaction i none := hrun
    exact ⟨n, hchain⟩
  | borrow =>
    obtain rfl : s' = s := hrun
    exact ⟨n, hchain⟩
  | _ =>
    obtain ⟨-, rfl⟩ := hrun
    exact ⟨n, hchain⟩

theorem Replaces.run {t : Transaction} (h : Replaces s t) {q : Statement} {a : q.Answer}
    (hrun : Database.run i s q a s') : Replaces s' t where
  cleared := h.cleared
  inserted := by
    intro r hr
    obtain ⟨hlatest, hready, hheld, hcleared⟩ := h.inserted r hr
    exact ⟨hlatest, hready, hheld.run hrun, hcleared⟩

/-- A statement that leaves the transactions alone, or changes the own one. -/
theorem transactions_withTransaction {t : Option Transaction} {j : ι} {t' : Transaction}
    (h : (s.withTransaction i t).transactions j = some t') :
    s.transactions j = some t' ∨ j = i ∧ t = some t' := by
  by_cases hj : j = i
  · subst hj
    exact .inr ⟨rfl, by simpa [Database.withTransaction] using h⟩
  · exact .inl (by simpa [Database.withTransaction, hj] using h)

theorem Sound.transactions_run (h : Sound s) {q : Statement} {a : q.Answer}
    (hminds : Minds i s q) (hrun : Database.run i s q a s') {j : ι} {t : Transaction}
    (ht : s'.transactions j = some t) : Replaces s' t := by
  have hold : s.transactions j = some t → Replaces s' t := fun hs =>
    (h.transactions j t hs).run hrun
  cases q with
  | claimInsert row =>
    rcases hrun with ⟨-, table, -, rfl⟩ | ⟨-, rfl, -⟩ <;> exact hold ht
  | reclaimStaleClaiming p olderThan sources limit =>
    obtain ⟨victims, -, -, -, rfl⟩ := hrun
    exact hold ht
  | commit =>
    obtain ⟨t', table, -, -, -, rfl⟩ := hrun
    by_cases hj : j = i
    · subst hj
      simp [Database.committed] at ht
    · exact hold (by simpa [Database.committed, hj] using ht)
  | deleteAllVersions p k =>
    obtain ⟨victims, -, -, rfl⟩ := hrun
    refine hold (ht.symm.trans ?_).symm
    unfold Database.noteRemoval
    split_ifs <;> rfl
  | begin =>
    obtain rfl : s' = s.withTransaction i (some {}) := hrun
    rcases transactions_withTransaction ht with hs | ⟨-, hnew⟩
    · exact hold hs
    · obtain rfl := Option.some.inj hnew
      constructor <;> simp
  | clearLatest p k =>
    obtain ⟨t', ht', ⟨-, rfl⟩ | ⟨c, hc, hlatest, -, rfl⟩⟩ := hrun
    · exact hold ht
    · rcases transactions_withTransaction ht with hs | ⟨-, hnew⟩
      · exact hold hs
      · obtain rfl := Option.some.inj hnew
        obtain rfl := hminds t' ht'
        simp only [Row.isLatestReadyOf, Bool.and_eq_true, beq_iff_eq] at hlatest
        constructor
        · rintro _ ⟨⟩
          exact ⟨hlatest.1.2, hlatest.2⟩
        · simp
  | insertVersion row =>
    obtain ⟨t', table, ht', -, rfl⟩ := hrun
    rcases transactions_withTransaction ht with hs | ⟨-, hnew⟩
    · exact hold hs
    · obtain rfl := Option.some.inj hnew
      obtain ⟨hlatest, hready, hheld, hcleared⟩ := hminds
      constructor
      · exact (h.transactions i t' ht').cleared
      · rintro _ ⟨⟩
        exact ⟨hlatest, hready, hheld, hcleared t' ht'⟩
  | rollback =>
    obtain rfl : s' = s.withTransaction i none := hrun
    rcases transactions_withTransaction ht with hs | ⟨-, hnew⟩
    · exact hold hs
    · cases hnew
  | borrow =>
    obtain rfl : s' = s := hrun
    exact hold ht
  | _ =>
    obtain ⟨-, rfl⟩ := hrun
    exact hold ht

/-- The record of commits grows only by a commit, and by the version that it has installed. -/
theorem Sound.installed_run (h : Sound s) {q : Statement} {a : q.Answer} (hminds : Minds i s q)
    (hrun : Database.run i s q a s') : s'.installed = s.installed ∨
      ∃ t c r, s.transactions i = some t ∧ t.cleared = some c ∧ t.inserted = some r ∧
        (∀ old ∈ s.table.rows.map (clear c), old.Compatible r) ∧ r ∈ s'.table.rows ∧
          s'.installed = s.installed ++ [⟨i, r.partitionId, r.id, r.version⟩] := by
  cases q with
  | claimInsert row =>
    rcases hrun with ⟨-, table, -, rfl⟩ | ⟨-, rfl, -⟩ <;> exact .inl rfl
  | reclaimStaleClaiming p olderThan sources limit =>
    obtain ⟨victims, -, -, -, rfl⟩ := hrun
    exact .inl rfl
  | commit =>
    obtain ⟨t, table, ht, -, happly, rfl⟩ := hrun
    obtain ⟨c, r, hc, hr, hall, hrows⟩ := h.committed_rows ht (hminds t ht) happly
    refine .inr ⟨t, c, r, ht, hc, hr, hall, ?_, ?_⟩
    · simp [Database.committed, hrows]
    · simp [Database.committed, hr]
  | deleteAllVersions p k =>
    obtain ⟨victims, -, -, rfl⟩ := hrun
    left
    unfold Database.noteRemoval
    split_ifs <;> rfl
  | begin =>
    obtain rfl : s' = s.withTransaction i (some {}) := hrun
    exact .inl rfl
  | clearLatest p k =>
    obtain ⟨t, -, ⟨-, rfl⟩ | ⟨c, -, -, -, rfl⟩⟩ := hrun <;> exact .inl rfl
  | insertVersion row =>
    obtain ⟨t, table, -, -, rfl⟩ := hrun
    exact .inl rfl
  | rollback =>
    obtain rfl : s' = s.withTransaction i none := hrun
    exact .inl rfl
  | borrow =>
    obtain rfl : s' = s := hrun
    exact .inl rfl
  | _ =>
    obtain ⟨-, rfl⟩ := hrun
    exact .inl rfl

theorem Sound.run (h : Sound s) {q : Statement} {a : q.Answer} (hminds : Minds i s q)
    (hrun : Database.run i s q a s') : Sound s' where
  chains := h.chains_run hminds hrun
  transactions j t := h.transactions_run hminds hrun
  installed := by
    intro e he
    rcases h.installed_run hminds hrun with hsame | ⟨t, c, r, ht, -, hr, -, hmem, hnew⟩
    · exact (h.installed e (hsame ▸ he)).run hrun
    · rw [hnew, List.mem_append, List.mem_singleton] at he
      rcases he with he | rfl
      · exact (h.installed e he).run hrun
      · obtain ⟨-, hready, -⟩ := (h.transactions i t ht).inserted r hr
        refine ⟨r, ?_, hready, .inr ⟨r.isLatest, hmem⟩⟩
        exact isVersionOf_iff.mpr ⟨isOf_iff.mpr ⟨rfl, rfl⟩, rfl⟩
  distinct := by
    have hbefore : s.installed.Pairwise fun a b => (a.partition, a.id) ∉ s'.removed →
        (a.partition, a.id, a.version) ≠ (b.partition, b.id, b.version) :=
      h.distinct.imp fun hne hremoved => hne (removed_run hrun hremoved)
    rcases h.installed_run hminds hrun with hsame | ⟨t, c, r, -, -, -, hall, -, hnew⟩
    · rwa [hsame]
    · rw [hnew, List.pairwise_append]
      refine ⟨hbefore, List.pairwise_singleton .., fun e he e' he' hremoved hkey => ?_⟩
      obtain rfl := List.mem_singleton.mp he'
      obtain ⟨row, hv, -, hheld⟩ := h.installed e he
      obtain ⟨hof, hversion⟩ := isVersionOf_iff.mp hv
      obtain ⟨hp, hk⟩ := isOf_iff.mp hof
      rw [← hp, ← hk] at hremoved
      obtain ⟨b, hmem⟩ := hheld.resolve_left (removed_run hrun hremoved)
      have hcompatible := hall _ (List.mem_map_of_mem hmem)
      refine hcompatible.1 ?_
      have hkeeps := keepsIndexes_clear c
      rw [hkeeps.partitionId, hkeeps.id, hkeeps.version]
      simpa [hp, hk, hversion] using hkey

end Steps

end FileService.Postgres.Metadata
