import FileService.Posix.BatchSteps
import FileService.Interaction.Fairness

/-!
# Every put returns

A batch goes from stage to stage while its committer goes on, and the committer
can go on as soon as nobody else commits. When the others have been told, none of
them is asleep.
-/
namespace FileService.Posix
open FileService.Common FileService.Domain FileService.Interaction

variable {ι : Type} [DecidableEq ι] {i c : ι} {b k : Nat} {s s' : BatchState ι}
variable {syncDirAfterBatch : Bool} {groupCommitMaxBatch : Nat} {renames : ι → List PendingRename}

/-! ## Progress of a batch -/

section Progress

/-- Where a put stands says how it goes on. -/
theorem PutStep.at_point (h : PutStep syncDirAfterBatch renames i s s') : match s.point i with
    | .leads b _ => ∃ writers, s' = s.lead i b writers true
    | .waits b k asleep => asleep = false ∧ s' = s.awaitDone i b k
    | .commits b k committed => s.commitLock = none ∧ s' = s.begin i b k committed
    | .committing b k committed => ∃ t results,
        (commitBatch syncDirAfterBatch (entriesOf renames committed)).Emits t results ∧
          s' = s.finish i b k committed results
    | .tells b k => s' = (s.tell i b).leave i b k
    | _ => False := by
  cases h with
  | @lead b writers asleep hi => rw [hi]; exact ⟨writers, rfl⟩
  | wait hi => rw [hi]; exact ⟨rfl, rfl⟩
  | begin hi hlock => rw [hi]; exact ⟨hlock, rfl⟩
  | finish hi hemits => rw [hi]; exact ⟨_, _, hemits, rfl⟩
  | tell hi => rw [hi]

/-- How far a batch has come. -/
@[simp] def Stage.rank : Stage ι → Nat
  | .gathering => 0
  | .taken _ => 1
  | .begun _ => 2
  | .ended _ => 3
  | .told _ => 4

omit [DecidableEq ι] in
theorem Stage.Goes.rank {x y : Stage ι} (h : Stage.Goes i x y) : y = x ∨ x.rank < y.rank := by
  induction h with
  | refl => exact .inl rfl
  | tail _ hnext ih =>
    right
    rcases ih with rfl | hlt <;> cases hnext <;> simp_all <;> omega

/-- The committer of a batch takes it further. -/
theorem PutStep.further (h : Settled syncDirAfterBatch groupCommitMaxBatch renames s)
    (hc : (s.stage b).committer = some c) (hstep : PutStep syncDirAfterBatch renames c s s') :
    (s.stage b).rank < (s'.stage b).rank := by
  have hattended := h.orderly.arranged.attended b
  have hplaced := h.orderly.arranged.placed c
  have hmine := h.orderly.arranged.committer hc
  cases hstep with
  | lead hi =>
    rw [hi] at hmine
    cases hmine.1
  | wait hi =>
    rw [hi] at hmine
    cases hmine.1
  | @begin b' k committed hi hlock =>
    rw [hi] at hplaced hmine
    obtain ⟨-, k', hseat⟩ := hmine
    cases hseat
    have hstage : (s.begin c b k committed).stage b = .begun c := Function.update_self ..
    rw [hstage, hplaced.1]
    simp
  | @finish b' k committed t results hi hemits =>
    rw [hi] at hplaced hmine
    obtain ⟨-, k', hseat⟩ := hmine
    cases hseat
    have hstage : (s.finish c b k committed results).stage b = .ended c := Function.update_self ..
    rw [hstage, hplaced.1]
    simp
  | @tell b' k hi =>
    rw [hi] at hplaced hmine
    obtain ⟨-, k', hseat⟩ := hmine
    cases hseat
    have hstage : ((s.tell c b).leave c b k).stage b = .told c := Function.update_self ..
    have hended : s.stage b = .ended c := hplaced
    rw [hstage, hended]
    simp

theorem nonempty_reply (op : Call) : Nonempty op.Reply := by
  cases op
  case enterBatch renames => exact ⟨0, 0, none⟩
  all_goals first | exact ⟨.ok default⟩ | exact ⟨(default : _)⟩

/-- `CommitBatch` can return. -/
theorem commitBatch_returns (syncDirAfterBatch : Bool) (entries : List BatchEntry) :
    ∃ t results, (commitBatch syncDirAfterBatch entries).Emits t results :=
  ⟨_, _, Program.emits_answered (fun op => (nonempty_reply op).some) _⟩

omit [DecidableEq ι] in
/-- The mutex of the commits is with a put that is in `CommitBatch`. -/
theorem Arranged.locked (h : Arranged s) (hlock : s.commitLock = some c) :
    ∃ b, s.stage b = .begun c := by
  obtain ⟨b, k, committed, hi⟩ := h.lock c hlock
  have hplaced := h.placed c
  rw [hi] at hplaced
  exact ⟨b, hplaced.1⟩

/-- The committer of a batch can go on, if it does not wait for another commit. -/
theorem Settled.able (h : Settled syncDirAfterBatch groupCommitMaxBatch renames s)
    (hc : (s.stage b).committer = some c) (hlock : s.stage b = .taken c → s.commitLock = none) :
    ∃ s', PutStep syncDirAfterBatch renames c s s' := by
  have hattended := h.orderly.arranged.attended b
  cases hstage : s.stage b <;> rw [hstage] at hc hattended
  case gathering => cases hc
  case told => cases hc
  all_goals
    cases hc
    obtain ⟨k, hi⟩ := hattended
  case taken => exact ⟨_, .begin hi (hlock hstage)⟩
  case begun =>
    obtain ⟨t, results, hemits⟩ := commitBatch_returns syncDirAfterBatch
      (entriesOf renames (s.members b))
    exact ⟨_, .finish hi hemits⟩
  case ended => exact ⟨_, .tell hi⟩

omit [DecidableEq ι] in
/-- The point of a member while its batch gathers, and when the batch is over. -/
theorem Settled.member (h : Settled syncDirAfterBatch groupCommitMaxBatch renames s)
    (hseat : (s.point i).seat = some (b, k)) :
    (k = 0 → (s.stage b).isSealed = false → ∃ asleep, s.point i = .leads b asleep) ∧
      ((s.stage b).isTold = true → (∃ asleep, s.point i = .leads b asleep) ∨
        s.point i = .waits b k false ∨ ∃ r, s.point i = .returned b k r) := by
  have hplaced := h.orderly.arranged.placed i
  have hbetween := h.between i
  cases hi : s.point i with
  | outside =>
    rw [hi] at hseat
    cases hseat
  | enters b' k' => exact absurd hi (hbetween b' k')
  | leads b' asleep =>
    rw [hi] at hseat
    cases hseat
    exact ⟨fun _ _ => ⟨asleep, rfl⟩, fun _ => .inl ⟨asleep, rfl⟩⟩
  | waits b' k' asleep =>
    rw [hi] at hseat hplaced
    cases hseat
    refine ⟨fun hk hb => ?_, fun htold => .inr (.inl ?_)⟩
    · rw [hplaced.2 hk] at hb
      cases hb
    · cases asleep with
      | false => rfl
      | true =>
        rw [hplaced.1 rfl] at htold
        cases htold
  | commits b' k' committed =>
    rw [hi] at hseat hplaced
    cases hseat
    rw [hplaced.1]
    simp
  | committing b' k' committed =>
    rw [hi] at hseat hplaced
    cases hseat
    rw [hplaced.1]
    simp
  | tells b' k' =>
    rw [hi] at hseat hplaced
    cases hseat
    have hended : s.stage b = .ended i := hplaced
    rw [hended]
    simp
  | returned b' k' r =>
    rw [hi] at hseat hplaced
    cases hseat
    refine ⟨fun _ hb => ?_, fun _ => .inr (.inr ⟨r, rfl⟩)⟩
    cases hstage : s.stage b <;> simp_all [Placed]

omit [DecidableEq ι] in
theorem seat_of_arrived (hi : s.point i ≠ .outside) : ∃ b k, (s.point i).seat = some (b, k) := by
  cases hp : s.point i with
  | outside => exact absurd hp hi
  | _ => exact ⟨_, _, rfl⟩

omit [DecidableEq ι] in
/-- A batch with a member has a first one. -/
theorem Settled.first (h : Settled syncDirAfterBatch groupCommitMaxBatch renames s)
    (hseat : (s.point i).seat = some (b, k)) : ∃ l, (s.point l).seat = some (b, 0) := by
  have hk := (h.orderly.seated.seats i b k).mp hseat
  cases hmembers : s.members b with
  | nil =>
    rw [hmembers] at hk
    cases hk
  | cons l rest => exact ⟨l, (h.orderly.seated.seats l b 0).mpr (by rw [hmembers]; rfl)⟩

end Progress

/-! ## Fair runs -/

section Runs
variable {run : ℕ → BatchState ι}

/-- A run of the puts from the start, in which every put that can go on again and again goes on
again and again. -/
structure FairRun (syncDirAfterBatch : Bool) (groupCommitMaxBatch : Nat)
    (renames : ι → List PendingRename) (run : ℕ → BatchState ι) : Prop where
  first : run 0 = {}
  follows : Follows (BatchStep syncDirAfterBatch groupCommitMaxBatch renames) run
  fair : ∀ i, Fair (PutStep syncDirAfterBatch renames i) run

theorem FairRun.settled (h : FairRun syncDirAfterBatch groupCommitMaxBatch renames run) (n : ℕ) :
    Settled syncDirAfterBatch groupCommitMaxBatch renames (run n) := by
  apply h.follows.always
  · rw [h.first]
    exact settled_init
  · exact fun hs hstep => hs.step hstep

/-- What no put undoes stays. -/
theorem FairRun.later (h : FairRun syncDirAfterBatch groupCommitMaxBatch renames run)
    {P : BatchState ι → Prop} (hP : ∀ {s s' j}, P s → Acted j s s' → P s') {n m : ℕ} (hle : n ≤ m)
    (hn : P (run n)) : P (run m) := by
  induction m, hle using Nat.le_induction with
  | base => exact hn
  | succ m _ ih =>
    rcases h.follows m with hstep | hsame
    · obtain ⟨j, hacted, -⟩ := hstep.acted (h.settled m)
      exact hP ih hacted
    · rw [hsame]
      exact ih

/-- Whoever commits gives the mutex of the commits back. -/
theorem FairRun.unlocks (h : FairRun syncDirAfterBatch groupCommitMaxBatch renames run) (c : ι) :
    LeadsTo run (fun s => s.commitLock = some c) fun s => s.commitLock = none := by
  have hact : ∀ n, (run n).commitLock = some c →
      PutStep syncDirAfterBatch renames c (run n) (run (n + 1)) → (run (n + 1)).commitLock = none := by
    intro n hn hput
    obtain ⟨b, k, committed, hi⟩ := (h.settled n).orderly.arranged.lock c hn
    have hnext := hput.at_point
    rw [hi] at hnext
    obtain ⟨-, results, -, hfinish⟩ := hnext
    rw [hfinish]
    rfl
  apply (h.fair c).leadsTo h.follows
  · intro n hn hstep
    obtain ⟨j, hacted, hputs⟩ := hstep.acted (h.settled n)
    by_cases hj : c = j
    · subst hj
      obtain ⟨b, k, committed, hi⟩ := (h.settled n).orderly.arranged.lock c hn
      rcases hputs (by rw [hi]; rfl) with hput | hsame
      · exact .inr (hact n hn hput)
      · rw [hsame]
        exact .inl hn
    · exact .inl ((hacted.lock c hj).mpr hn)
  · exact hact
  · apply leadsTo_of_imp
    intro n hn
    obtain ⟨b, hb⟩ := (h.settled n).orderly.arranged.locked hn
    right
    apply (h.settled n).able (b := b)
    · rw [hb]
      rfl
    · intro htaken
      rw [hb] at htaken
      cases htaken

/-- A batch that is being committed goes to its next stage. -/
theorem FairRun.advances (h : FairRun syncDirAfterBatch groupCommitMaxBatch renames run) (b : Nat)
    {x : Stage ι} (hc : x.committer = some c) :
    LeadsTo run (fun s => s.stage b = x) fun s => x.rank < (s.stage b).rank := by
  have hkeep : ∀ n, (run n).stage b = x → BatchStep syncDirAfterBatch groupCommitMaxBatch renames
      (run n) (run (n + 1)) → (run (n + 1)).stage b = x ∨ x.rank < ((run (n + 1)).stage b).rank := by
    intro n hn hstep
    obtain ⟨j, hacted, -⟩ := hstep.acted (h.settled n)
    rw [← hn]
    exact (hacted.stage b).rank
  have hact : ∀ n, (run n).stage b = x → PutStep syncDirAfterBatch renames c (run n) (run (n + 1)) →
      x.rank < ((run (n + 1)).stage b).rank := by
    intro n hn hput
    have hfurther := hput.further (h.settled n) (b := b) (by rw [hn, hc])
    rwa [hn] at hfurther
  have hable : LeadsTo run (fun s => s.stage b = x) fun s =>
      x.rank < (s.stage b).rank ∨ ∃ s', PutStep syncDirAfterBatch renames c s s' := by
    intro n hn
    -- the mutex of the commits is free now, or once whoever has it gives it back
    have hfree : ∃ m ≥ n, (run m).commitLock = none := by
      cases hlock : (run n).commitLock with
      | none => exact ⟨n, le_rfl, hlock⟩
      | some d => exact h.unlocks d n hlock
    obtain ⟨m, hm, hfree⟩ := hfree
    refine ⟨m, hm, ?_⟩
    have hstages : (run m).stage b = x ∨ x.rank < ((run m).stage b).rank := by
      apply h.later (P := fun s => s.stage b = x ∨ x.rank < (s.stage b).rank) _ hm (.inl hn)
      rintro s s' j (hs | hs) hacted
      · rw [← hs]
        exact (hacted.stage b).rank
      · right
        rcases (hacted.stage b).rank with hsame | hlt
        · rwa [hsame]
        · exact hs.trans hlt
    rcases hstages with hsame | hlt
    · right
      apply (h.settled m).able (b := b)
      · rw [hsame, hc]
      · exact fun _ => hfree
    · exact .inl hlt
  exact (h.fair c).leadsTo h.follows hkeep hact hable

/-- A sealed batch is committed and its members are told. -/
theorem FairRun.tells (h : FairRun syncDirAfterBatch groupCommitMaxBatch renames run) (b : Nat) :
    LeadsTo run (fun s => (s.stage b).isSealed = true) fun s => (s.stage b).isTold = true := by
  have hnext : ∀ r, 1 ≤ r → r < 4 →
      LeadsTo run (fun s => r ≤ (s.stage b).rank) fun s => r + 1 ≤ (s.stage b).rank := by
    intro r hpos hlt n hn
    cases hstage : (run n).stage b <;> rw [hstage, Stage.rank] at hn
    case gathering => omega
    case told =>
      refine ⟨n, le_rfl, ?_⟩
      dsimp only
      rw [hstage, Stage.rank]
      omega
    all_goals
      obtain ⟨m, hm, hrank⟩ := h.advances b rfl n hstage
      exact ⟨m, hm, (Nat.succ_le_succ hn).trans hrank⟩
  have hlast : LeadsTo run (fun s => 1 ≤ (s.stage b).rank) fun s => 4 ≤ (s.stage b).rank :=
    ((hnext 1 le_rfl (by omega)).trans (hnext 2 (by omega) (by omega))).trans
      (hnext 3 (by omega) (by omega))
  intro n hn
  have hsealed : 1 ≤ ((run n).stage b).rank := by
    cases hstage : (run n).stage b <;> simp [hstage] at hn ⊢
  obtain ⟨m, hm, hrank⟩ := hlast n hsealed
  refine ⟨m, hm, ?_⟩
  cases hstage : (run m).stage b <;> simp [hstage] at hrank ⊢

/-- The window of a leader ends, at the latest when nobody fills the batch. -/
theorem FairRun.seals (h : FairRun syncDirAfterBatch groupCommitMaxBatch renames run) (i : ι)
    (b : Nat) : LeadsTo run (fun s => (s.point i).seat = some (b, 0)) fun s =>
      (s.stage b).isSealed = true := by
  have hact : ∀ n, ((run n).point i).seat = some (b, 0) →
      PutStep syncDirAfterBatch renames i (run n) (run (n + 1)) →
      ((run (n + 1)).stage b).isSealed = true := by
    intro n hn hput
    have hsettled := h.settled n
    have hacted := hput.acted hsettled
    by_cases hb : ((run n).stage b).isSealed = true
    · exact (hacted.stage b).isSealed hb
    · obtain ⟨asleep, hi⟩ := (hsettled.member hn).1 rfl (Bool.not_eq_true _ ▸ hb)
      have hflag := hsettled.orderly.flagged.sealed b
      have hnext := hput.at_point
      rw [hi] at hnext
      obtain ⟨writers, hlead⟩ := hnext
      rw [hlead, BatchState.lead, if_pos (by simp), if_neg (hflag ▸ hb)]
      have htaken : ((run n).take i b 0).stage b = .taken i := Function.update_self ..
      rw [htaken]
      rfl
  apply (h.fair i).leadsTo h.follows
  · intro n hn hstep
    obtain ⟨j, hacted, -⟩ := hstep.acted (h.settled n)
    exact .inl (hacted.seats hn)
  · exact hact
  · apply leadsTo_of_imp
    intro n hn
    by_cases hb : ((run n).stage b).isSealed = true
    · exact .inl hb
    · obtain ⟨asleep, hi⟩ := ((h.settled n).member hn).1 rfl (Bool.not_eq_true _ ▸ hb)
      exact .inr ⟨(run n).lead i b 0 true, .lead hi⟩

/-- When the others have been told, every member of the batch returns. -/
theorem FairRun.leaves (h : FairRun syncDirAfterBatch groupCommitMaxBatch renames run) (i : ι)
    (b k : Nat) : LeadsTo run
      (fun s => (s.stage b).isTold = true ∧ (s.point i).seat = some (b, k))
      fun s => ∃ r, s.point i = .returned b k r := by
  have hdone : ∀ n, ((run n).stage b).isTold = true → ((run n).batches b).done = true ∧
      ((run n).batches b).sealed = true := by
    intro n hn
    have hflags := (h.settled n).orderly.flagged
    constructor
    · exact (hflags.done b).trans hn
    · rw [hflags.sealed]
      cases hstage : (run n).stage b <;> simp [hstage] at hn ⊢
  have hact : ∀ n, ((run n).stage b).isTold = true ∧ ((run n).point i).seat = some (b, k) →
      PutStep syncDirAfterBatch renames i (run n) (run (n + 1)) →
      ∃ r, (run (n + 1)).point i = .returned b k r := by
    rintro n ⟨htold, hseat⟩ hput
    obtain ⟨hdone, hsealed⟩ := hdone n htold
    have hmember := ((h.settled n).member hseat).2 htold
    have hnext := hput.at_point
    rcases hmember with ⟨asleep, hi⟩ | hi | ⟨r, hi⟩ <;> rw [hi] at hnext
    · rw [hi] at hseat
      cases hseat
      obtain ⟨writers, hlead⟩ := hnext
      rw [hlead, BatchState.lead, if_pos (by simp), if_pos hsealed, BatchState.awaitDone,
        if_pos hdone]
      exact ⟨_, leave_point⟩
    · rw [hnext.2, BatchState.awaitDone, if_pos hdone]
      exact ⟨_, leave_point⟩
    · exact hnext.elim
  apply (h.fair i).leadsTo h.follows
  · rintro n ⟨htold, hseat⟩ hstep
    obtain ⟨j, hacted, -⟩ := hstep.acted (h.settled n)
    have hsame := (hacted.stage b).isTold htold
    exact .inl ⟨hsame ▸ htold, hacted.seats hseat⟩
  · exact hact
  · apply leadsTo_of_imp
    rintro n ⟨htold, hseat⟩
    rcases ((h.settled n).member hseat).2 htold with ⟨asleep, hi⟩ | hi | hreturned
    · exact .inr ⟨(run n).lead i b 0 true, .lead hi⟩
    · exact .inr ⟨_, .wait hi⟩
    · exact .inl hreturned

/-- Every put that has arrived returns. -/
theorem FairRun.returns (h : FairRun syncDirAfterBatch groupCommitMaxBatch renames run) (i : ι) :
    LeadsTo run (fun s => s.point i ≠ .outside) fun s => ∃ b k r, s.point i = .returned b k r := by
  intro n hn
  obtain ⟨b, k, hseat⟩ := seat_of_arrived hn
  obtain ⟨l, hl⟩ := (h.settled n).first hseat
  obtain ⟨m, hm, hsealed⟩ := h.seals l b n hl
  obtain ⟨m', hm', htold⟩ := h.tells b m hsealed
  have hseat' : ((run m').point i).seat = some (b, k) :=
    h.later (P := fun s => (s.point i).seat = some (b, k)) (fun hs hacted => hacted.seats hs)
      (hm.trans hm') hseat
  obtain ⟨m'', hm'', r, hr⟩ := h.leaves i b k m' ⟨htold, hseat'⟩
  exact ⟨m'', (hm.trans hm').trans hm'', b, k, r, hr⟩

end Runs

end FileService.Posix
