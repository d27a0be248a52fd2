import FileService.Posix.BatchProgress
import FileService.Posix.FileSystem

/-!
# Shared commits

Every entry is passed to `CommitBatch` once, with the entries of no more puts than
the limit says, and the put that handed it over returns with the answer to it.
-/
namespace FileService.Posix
open FileService.Common FileService.Domain FileService.Interaction

variable {ι : Type} [DecidableEq ι] {i : ι} {b k : Nat} {s : BatchState ι}
variable {syncDirAfterBatch : Bool} {groupCommitMaxBatch : Nat} {renames : ι → List PendingRename}

/-! ## What a put is told -/

section Results

omit [DecidableEq ι] in
/-- The entry that a put hands over is among those that its committer passes on, at its place. -/
theorem Settled.entry (h : Settled syncDirAfterBatch groupCommitMaxBatch renames s)
    (hseat : (s.point i).seat = some (b, k)) :
    (entriesOf renames (s.members b))[k]? = some ⟨renames i⟩ ∧
      ∀ (l : Nat) (other : BatchEntry), l ≠ k → (entriesOf renames (s.members b))[l]? = some other →
        ∃ j ≠ i, other = ⟨renames j⟩ := by
  have hk := (h.orderly.seated.seats i b k).mp hseat
  constructor
  · rw [entriesOf, List.getElem?_map, hk]
    rfl
  · intro l other hl hother
    rw [entriesOf, List.getElem?_map, Option.map_eq_some_iff] at hother
    obtain ⟨j, hj, rfl⟩ := hother
    refine ⟨j, ?_, rfl⟩
    rintro rfl
    have hseat' := (h.orderly.seated.seats j b l).mpr hj
    rw [hseat] at hseat'
    simp only [Option.some.injEq, Prod.mk.injEq, true_and] at hseat'
    exact hl hseat'.symm

omit [DecidableEq ι] in
/-- What one operation assumes of the batch it commits, where puts write different files. -/
theorem Settled.inBatch (h : Settled syncDirAfterBatch groupCommitMaxBatch renames s)
    (hseat : (s.point i).seat = some (b, k)) {session : Session}
    (hsession : session.seat = some (k, renames i))
    (hapart : ∀ j ≠ i, ∀ mine ∈ renames i, ∀ rename ∈ renames j, ∀ path ∈ rename.paths,
      path ∉ mine.paths) : session.InBatch (entriesOf renames (s.members b)) := by
  obtain ⟨hmine, hothers⟩ := h.entry hseat
  refine ⟨k, renames i, hsession, hmine, ?_⟩
  intro l other hl hother mine hmem
  obtain ⟨j, hj, rfl⟩ := hothers l other hl hother
  exact hapart j hj mine hmem

end Results

/-! ## Every entry is committed once -/

section Once

/-- No batch is larger than the limit. -/
def WithinLimit (groupCommitMaxBatch : Nat) (s : BatchState ι) : Prop :=
  (∀ b, (s.batches b).entries.length ≤ max 1 groupCommitMaxBatch) ∧
    ∀ call ∈ s.called, call.entries.length ≤ max 1 groupCommitMaxBatch

/-- The result is the answer to the entry of the put in the call of `CommitBatch` for its batch. -/
def OwnResult (syncDirAfterBatch : Bool) (renames : ι → List PendingRename) (s : BatchState ι)
    (i : ι) (b k : Nat) (r : Result Unit) : Prop :=
  ∃ call results t, call ∈ s.called ∧ (call, results) ∈ s.answered ∧ call.batch = b ∧
    call.entries[k]? = some i ∧ results[k]? = some r ∧
    (commitBatch syncDirAfterBatch (entriesOf renames call.entries)).Emits t results

omit [DecidableEq ι] in
theorem Settled.withinLimit (h : Settled syncDirAfterBatch groupCommitMaxBatch renames s) :
    WithinLimit groupCommitMaxBatch s := by
  have hsize := h.orderly.seated.size
  constructor
  · intro b
    rw [h.orderly.flagged.entries]
    split
    · exact Nat.zero_le _
    · exact hsize b
  · intro call hcall
    rw [((h.orderly.recorded.called call).mp hcall).2]
    exact hsize _

omit [DecidableEq ι] in
/-- No entry is passed to `CommitBatch` twice. -/
theorem Settled.once (h : Settled syncDirAfterBatch groupCommitMaxBatch renames s) :
    (s.called.flatMap CommitCall.entries).Nodup := by
  have hentries : ∀ call ∈ s.called, call.entries = s.members call.batch :=
    fun call hcall => ((h.orderly.recorded.called call).mp hcall).2
  rw [List.nodup_flatMap]
  constructor
  · intro call hcall
    rw [hentries call hcall]
    exact h.orderly.seated.nodup _
  · have honce := h.orderly.recorded.once
    rw [List.Nodup, List.pairwise_map] at honce
    apply honce.imp_of_mem
    intro call call' hcall hcall' hne i hi hi'
    rw [hentries call hcall] at hi
    rw [hentries call' hcall'] at hi'
    exact hne (h.orderly.seated.disjoint hi hi')

omit [DecidableEq ι] in
theorem Settled.ownResult (h : Settled syncDirAfterBatch groupCommitMaxBatch renames s)
    {r : Result Unit} (hi : s.point i = .returned b k r) :
    OwnResult syncDirAfterBatch renames s i b k r := by
  have hrecorded := h.orderly.recorded
  have hplaced := h.orderly.arranged.placed i
  rw [hi] at hplaced
  obtain ⟨htold, hr⟩ := hplaced
  have hk := (h.orderly.seated.seats i b k).mp (by rw [hi]; rfl)
  cases hstage : s.stage b <;> rw [hstage] at htold
  case told c =>
    have hended : (s.stage b).endedBy = some c := by rw [hstage]; rfl
    have hbegun : (s.stage b).begunBy = some c := by rw [hstage]; rfl
    obtain ⟨t, hemits⟩ := hrecorded.emitted b c hended
    exact ⟨⟨c, b, s.members b⟩, (s.batches b).results, t, (hrecorded.called _).mpr ⟨hbegun, rfl⟩,
      (hrecorded.answered _ _).mpr ⟨hended, rfl, rfl⟩, rfl, hk, hr, hemits⟩
  all_goals cases htold

/-- A put that has arrived has returned, or some put can go on. -/
theorem Settled.goesOn (h : Settled syncDirAfterBatch groupCommitMaxBatch renames s)
    (hi : s.point i ≠ .outside) : (∃ b k r, s.point i = .returned b k r) ∨
      ∃ j s', PutStep syncDirAfterBatch renames j s s' := by
  obtain ⟨b, k, hseat⟩ := seat_of_arrived hi
  cases hstage : s.stage b with
  | gathering =>
    obtain ⟨l, hl⟩ := h.first hseat
    obtain ⟨asleep, hleads⟩ := (h.member hl).1 rfl (by rw [hstage]; rfl)
    exact .inr ⟨l, s.lead l b 0 true, .lead hleads⟩
  | taken c =>
    right
    cases hlock : s.commitLock with
    | none => exact ⟨c, h.able (b := b) (by rw [hstage]; rfl) fun _ => hlock⟩
    | some d =>
      obtain ⟨b', hb'⟩ := h.orderly.arranged.locked hlock
      exact ⟨d, h.able (b := b') (by rw [hb']; rfl) fun htaken => by rw [hb'] at htaken; cases htaken⟩
  | begun c =>
    right
    exact ⟨c, h.able (b := b) (by rw [hstage]; rfl) fun htaken => by rw [hstage] at htaken; cases htaken⟩
  | ended c =>
    right
    exact ⟨c, h.able (b := b) (by rw [hstage]; rfl) fun htaken => by rw [hstage] at htaken; cases htaken⟩
  | told c =>
    rcases (h.member hseat).2 (by rw [hstage]; rfl) with ⟨asleep, hleads⟩ | hwaits | ⟨r, hr⟩
    · exact .inr ⟨i, s.lead i b 0 true, .lead hleads⟩
    · exact .inr ⟨i, _, .wait hwaits⟩
    · exact .inl ⟨b, k, r, hr⟩

/-- At every moment no batch is too large and no entry has been passed to `CommitBatch` twice, and
a put that has returned has the answer to its own entry; and some put can go on until all that
have arrived have returned, as they do in every fair run. -/
theorem entries_committed_once (syncDirAfterBatch : Bool) (groupCommitMaxBatch : Nat)
    (renames : ι → List PendingRename) :
    (∀ s, Relation.ReflTransGen (BatchStep syncDirAfterBatch groupCommitMaxBatch renames) {} s →
      WithinLimit groupCommitMaxBatch s ∧ (s.called.flatMap CommitCall.entries).Nodup ∧
        (∀ i b k r, s.point i = .returned b k r → OwnResult syncDirAfterBatch renames s i b k r) ∧
          ∀ i, s.point i ≠ .outside → (∃ b k r, s.point i = .returned b k r) ∨
            ∃ j s', PutStep syncDirAfterBatch renames j s s') ∧
    ∀ run, FairRun syncDirAfterBatch groupCommitMaxBatch renames run → ∀ i,
      LeadsTo run (fun s => s.point i ≠ .outside) fun s => ∃ b k r, s.point i = .returned b k r := by
  constructor
  · intro s hreaches
    have hsettled := settled_of_reaches hreaches
    exact ⟨hsettled.withinLimit, hsettled.once, fun i b k r hi => hsettled.ownResult hi,
      fun i hi => hsettled.goesOn hi⟩
  · exact fun run hrun i => hrun.returns i

end Once

/-! ## Two puts in one batch -/

section Two
variable (results : List (Result Unit))

private def handed (put : Bool) : List PendingRename :=
  if put then [⟨"c/.tmp_1", "c/b"⟩] else [⟨"c/.tmp_0", "c/a"⟩]

private def led : BatchState Bool := BatchState.join {} false 2 2 false

private def filled : BatchState Bool := led.join true 2 2 false

private def begun : BatchState Bool := filled.begin true 0 1 [false, true]

private def ended : BatchState Bool := begun.finish true 0 1 [false, true] results

private def told : BatchState Bool := ((ended results).tell true 0).leave true 0 1

private def left : BatchState Bool := (told results).lead false 0 2 true

/-- The first put leads; the second fills the batch, commits it and tells the first. -/
private def shared : ℕ → BatchState Bool
  | 0 => {}
  | 1 => led
  | 2 => filled
  | 3 => begun
  | 4 => ended results
  | 5 => told results
  | _ => left results

private theorem led_step : BatchStep true 2 handed {} led :=
  @BatchStep.join Bool _ true 2 handed {} false 2 false rfl

private theorem filled_step : BatchStep true 2 handed led filled :=
  @BatchStep.join Bool _ true 2 handed led true 2 false rfl

private theorem left_step : PutStep true handed false (told results) (left results) :=
  @PutStep.lead Bool _ true handed false (told results) 0 2 false rfl

private theorem shared_fair {t : Trace posix}
    (hemits : (commitBatch true (entriesOf handed [false, true])).Emits t results) :
    FairRun true 2 handed (shared results) where
  first := rfl
  follows n := by
    match n with
    | 0 => exact .inl led_step
    | 1 => exact .inl filled_step
    | 2 => exact .inl (.proceed (PutStep.begin (i := true) rfl rfl))
    | 3 => exact .inl (.proceed (PutStep.finish (i := true) rfl hemits))
    | 4 => exact .inl (.proceed (PutStep.tell (i := true) rfl))
    | 5 => exact .inl (.proceed (left_step results))
    | n + 6 => exact .inr rfl
  fair i := by
    intro hoften
    obtain ⟨n, hn, s', hstep⟩ := Filter.frequently_atTop.mp hoften 6
    obtain ⟨m, rfl⟩ := Nat.exists_eq_add_of_le' hn
    -- both have returned
    have hover : ∃ k r, (shared results (m + 6)).point i = .returned 0 k r := by
      cases i
      · exact ⟨0, _, rfl⟩
      · exact ⟨1, _, rfl⟩
    obtain ⟨k, r, hi⟩ := hover
    have hnext := hstep.at_point
    rw [hi] at hnext
    exact hnext.elim

/-- Both puts return with the answers to the one call of `CommitBatch`. -/
theorem filled_batch_returns : ∃ run : ℕ → BatchState Bool, FairRun true 2 handed run ∧
    (run 6).called = [⟨true, 0, [false, true]⟩] ∧ WithinLimit 2 (run 6) ∧
      (∀ i, ∃ k r, (run 6).point i = .returned 0 k r ∧ OwnResult true handed (run 6) i 0 k r) ∧
      ∀ i, ∃ m ≥ 2, ∃ b k r, (run m).point i = .returned b k r := by
  obtain ⟨t, results, hemits⟩ := commitBatch_returns true (entriesOf handed [false, true])
  have hfair := shared_fair results hemits
  have hreaches := hfair.follows.reaches 6
  rw [hfair.first] at hreaches
  obtain ⟨hlimit, -, hown, -⟩ := (entries_committed_once true 2 handed).1 _ hreaches
  have hlast : ∀ i, ∃ k r, (shared results 6).point i = .returned 0 k r := by
    intro i
    cases i
    · exact ⟨0, _, rfl⟩
    · exact ⟨1, _, rfl⟩
  refine ⟨shared results, hfair, rfl, hlimit, ?_, ?_⟩
  · intro i
    obtain ⟨k, r, hi⟩ := hlast i
    exact ⟨k, r, hi, hown i 0 k r hi⟩
  · intro i
    apply (entries_committed_once true 2 handed).2 _ hfair i 2
    cases i <;> exact fun houtside => nomatch houtside

end Two

end FileService.Posix
