import FileService.Posix.BatchRuns

/-!
# Every step of the puts

A put that arrives opens a batch if there is none, enters it and, while it still
holds the mutex, fills it, leads it or waits. With this every step keeps the
state settled, and is the work of one put.
-/
namespace FileService.Posix
open FileService.Common FileService.Domain FileService.Interaction

variable {ι : Type} {i : ι} {b k : Nat} {s s' : BatchState ι}
variable {syncDirAfterBatch : Bool} {groupCommitMaxBatch : Nat} {renames : ι → List PendingRename}

/-! ## Arriving -/

section Arriving

theorem Settled.newBatch (h : Settled syncDirAfterBatch groupCommitMaxBatch renames s)
    (hi : s.point i = .outside) :
    Settled syncDirAfterBatch groupCommitMaxBatch renames s.newBatch.2 := by
  have hfresh := h.orderly.flagged.fresh s.made le_rfl
  have hmembers := h.orderly.seated.fresh s.made le_rfl
  have hflags := h.orderly.flagged
  have hself : s.newBatch.2.batches s.made = {} := Function.update_self ..
  have hother : ∀ b ≠ s.made, s.newBatch.2.batches b = s.batches b :=
    fun b hne => Function.update_of_ne hne ..
  refine ⟨⟨?_, h.orderly.arranged.newBatch hi hfresh, ?_, ?_⟩, h.room, h.between⟩
  · exact h.orderly.seated.of_seats rfl (fun _ => rfl) (Nat.le_succ _)
  · have hstage : s.newBatch.2.stage = s.stage := rfl
    constructor
    · intro b
      rw [hstage]
      by_cases hne : b = s.made
      · rw [hne, hself, hfresh]
      · rw [hother b hne]
        exact hflags.sealed b
    · intro b
      rw [hstage]
      by_cases hne : b = s.made
      · rw [hne, hself, stage_eq_gathering hfresh]
        rfl
      · rw [hother b hne]
        exact hflags.done b
    · intro b
      rw [hstage]
      by_cases hne : b = s.made
      · rw [hne, hself, hfresh]
        exact hmembers.symm
      · rw [hother b hne]
        exact hflags.entries b
    · intro b hb
      cases hb
      exact ⟨hfresh, Nat.lt_succ_self _⟩
    · exact fun b hb => hflags.fresh b (Nat.le_of_succ_le hb)
  · have hresults : ∀ b c, (s.stage b).endedBy = some c →
        (s.newBatch.2.batches b).results = (s.batches b).results := by
      intro b c hb
      have hne : b ≠ s.made := by
        rintro rfl
        rw [stage_eq_gathering hfresh] at hb
        cases hb
      rw [hother b hne]
    exact h.orderly.recorded.of_same rfl rfl (fun _ => rfl) (fun _ => rfl) (fun _ _ _ => rfl) hresults

/-- The put finds a batch that gathers. -/
theorem Settled.openBatch (h : Settled syncDirAfterBatch groupCommitMaxBatch renames s)
    (hi : s.point i = .outside) : ∃ b opened, s.openBatch = (b, opened) ∧
      Settled syncDirAfterBatch groupCommitMaxBatch renames opened ∧ Acted i s opened ∧
      opened.point i = .outside ∧ (opened.stage b).isSealed = false ∧ b < opened.made := by
  have hfresh := h.orderly.flagged.fresh s.made le_rfl
  have hnew := h.newBatch hi
  unfold BatchState.openBatch
  cases hcurrent : s.current with
  | none => exact ⟨_, _, rfl, hnew, acted_newBatch hfresh, hi, hfresh, Nat.lt_succ_self _⟩
  | some b =>
    obtain ⟨hsealed, hmade⟩ := h.orderly.flagged.current b hcurrent
    dsimp only
    rw [h.orderly.flagged.sealed, hsealed]
    exact ⟨b, s, rfl, h, .refl i s, hi, hsealed, hmade⟩

variable [DecidableEq ι]

theorem Settled.push (h : Settled syncDirAfterBatch groupCommitMaxBatch renames s)
    (hi : s.point i = .outside) (hb : (s.stage b).isSealed = false) (hmade : b < s.made) :
    Orderly syncDirAfterBatch groupCommitMaxBatch renames (s.push i b) ∧
      Elsewhere groupCommitMaxBatch i b (s.push i b) := by
  have hflags := h.orderly.flagged
  have hentries : (s.batches b).entries = s.members b := by
    rw [hflags.entries, if_neg (hb ▸ Bool.false_ne_true)]
  have hself : (s.push i b).batches b =
    { s.batches b with entries := (s.batches b).entries ++ [i] } := Function.update_self ..
  have hmembers : (s.push i b).members b = s.members b ++ [i] := Function.update_self ..
  have hother : ∀ b' ≠ b, (s.push i b).batches b' = s.batches b' ∧
      (s.push i b).members b' = s.members b' :=
    fun b' hne => ⟨Function.update_of_ne hne .., Function.update_of_ne hne ..⟩
  refine ⟨⟨h.orderly.seated.push hi hmade hentries (h.room b hb),
    h.orderly.arranged.push hi hb, ?_, ?_⟩, ?_, ?_⟩
  · refine ⟨?_, ?_, ?_, hflags.current, hflags.fresh⟩
    · intro b'
      by_cases hne : b' = b
      · rw [hne, hself]
        exact hflags.sealed b
      · rw [(hother b' hne).1]
        exact hflags.sealed b'
    · intro b'
      by_cases hne : b' = b
      · rw [hne, hself]
        exact hflags.done b
      · rw [(hother b' hne).1]
        exact hflags.done b'
    · intro b'
      by_cases hne : b' = b
      · have hstage : ((s.push i b).stage b).isSealed = false := hb
        rw [hne, hself, hmembers, if_neg (hstage ▸ Bool.false_ne_true), hentries]
      · rw [(hother b' hne).1, (hother b' hne).2]
        exact hflags.entries b'
  · have hbegun : ∀ b' c, (s.stage b').begunBy = some c →
        (s.push i b).members b' = s.members b' := by
      intro b' c hb'
      apply (hother b' _).2
      rintro rfl
      rw [stage_eq_gathering hb] at hb'
      cases hb'
    have hended : ∀ b' c, (s.stage b').endedBy = some c →
        ((s.push i b).batches b').results = (s.batches b').results := by
      intro b' c hb'
      rw [(hother b' _).1]
      rintro rfl
      rw [stage_eq_gathering hb] at hb'
      cases hb'
    exact h.orderly.recorded.of_same rfl rfl (fun _ => rfl) (fun _ => rfl) hbegun hended
  · intro b' hne hb'
    rw [(hother b' hne).2]
    exact h.room b' hb'
  · intro j hj
    dsimp only [BatchState.push]
    rw [Function.update_of_ne hj]
    exact h.between j

omit [DecidableEq ι] in
theorem Orderly.notifyAll (h : Orderly syncDirAfterBatch groupCommitMaxBatch renames s) :
    Orderly syncDirAfterBatch groupCommitMaxBatch renames s.notifyAll :=
  ⟨h.seated.of_seats rfl (fun _ => Point.seat_woken _) le_rfl, h.arranged.notifyAll,
    ⟨h.flagged.sealed, h.flagged.done, h.flagged.entries, h.flagged.current, h.flagged.fresh⟩,
    ⟨h.recorded.called, h.recorded.once, h.recorded.answered, h.recorded.emitted⟩⟩

omit [DecidableEq ι] in
theorem Point.woken_ne_enters {p : Point ι} (hp : p ≠ .enters b k) : p.woken ≠ .enters b k := by
  cases p <;> simp_all [Point.woken]

/-- A put has entered a batch that gathers, with all else settled. -/
structure Entered (syncDirAfterBatch : Bool) (groupCommitMaxBatch : Nat)
    (renames : ι → List PendingRename) (i : ι) (b k : Nat) (s entered : BatchState ι) : Prop where
  orderly : Orderly syncDirAfterBatch groupCommitMaxBatch renames entered
  elsewhere : Elsewhere groupCommitMaxBatch i b entered
  acted : Acted i s entered
  point : entered.point i = .enters b k
  gathering : (entered.stage b).isSealed = false

omit [DecidableEq ι] in
theorem Entered.notifyAll {entered : BatchState ι}
    (h : Entered syncDirAfterBatch groupCommitMaxBatch renames i b k s entered) :
    Entered syncDirAfterBatch groupCommitMaxBatch renames i b k s entered.notifyAll where
  orderly := h.orderly.notifyAll
  elsewhere :=
    ⟨h.elsewhere.room, fun j hj b k => Point.woken_ne_enters (h.elsewhere.between j hj b k)⟩
  acted := h.acted.trans acted_notifyAll
  point := congrArg Point.woken h.point
  gathering := h.gathering

/-- The put fills the batch and takes it, or there is still room and it leads or waits. -/
theorem Settled.join_cases (h : Settled syncDirAfterBatch groupCommitMaxBatch renames s)
    (hi : s.point i = .outside) (writers : Nat) (late : Bool) : ∃ b k entered,
    Entered syncDirAfterBatch groupCommitMaxBatch renames i b k s entered ∧
      (s.join i groupCommitMaxBatch writers late = entered.take i b k ∨
        (entered.members b).length < max 1 groupCommitMaxBatch ∧
          (k = 0 ∧ s.join i groupCommitMaxBatch writers late = entered.lead i b writers late ∨
            k ≠ 0 ∧ s.join i groupCommitMaxBatch writers late = entered.awaitDone i b k)) := by
  obtain ⟨b, opened, hopen, hsettled, hopened, houtside, hsealed, hmade⟩ := h.openBatch hi
  obtain ⟨horderly, helse⟩ := hsettled.push houtside hsealed hmade
  have hentered : Entered syncDirAfterBatch groupCommitMaxBatch renames i b
      (opened.batches b).entries.length s (opened.push i b) :=
    ⟨horderly, helse, hopened.trans (acted_push houtside hsealed), Function.update_self .., hsealed⟩
  have hentries : ((opened.push i b).batches b).entries = (opened.push i b).members b := by
    rw [horderly.flagged.entries, if_neg]
    exact hsealed ▸ Bool.false_ne_true
  have hmax : (if groupCommitMaxBatch = 0 then 1 else groupCommitMaxBatch) =
      max 1 groupCommitMaxBatch := by
    split <;> omega
  unfold BatchState.join
  rw [hopen]
  dsimp only
  rw [hentries, hmax]
  by_cases hfull : max 1 groupCommitMaxBatch ≤ ((opened.push i b).members b).length
  · rw [if_pos hfull]
    exact ⟨b, _, _, hentered.notifyAll, .inl rfl⟩
  · rw [if_neg hfull]
    refine ⟨b, _, _, hentered, .inr ⟨not_le.mp hfull, ?_⟩⟩
    by_cases hfirst : (opened.batches b).entries.length = 0
    · rw [if_pos hfirst]
      exact .inl ⟨hfirst, rfl⟩
    · rw [if_neg hfirst]
      exact .inr ⟨hfirst, rfl⟩

end Arriving

/-! ## Steps -/

section Steps
variable [DecidableEq ι]

theorem acted_awaitDone (hseat : (s.point i).seat = some (b, k)) :
    Acted i s (s.awaitDone i b k) := by
  unfold BatchState.awaitDone
  split
  · exact acted_goes hseat.symm
  · exact acted_goes hseat.symm

theorem acted_lead (hflags : Flagged s) (hseat : (s.point i).seat = some (b, 0)) (writers : Nat)
    (late : Bool) : Acted i s (s.lead i b writers late) := by
  unfold BatchState.lead
  split
  · split
    · exact acted_awaitDone hseat
    · rename_i hsealed
      rw [hflags.sealed, Bool.not_eq_true] at hsealed
      exact (further_take hseat (stage_eq_gathering hsealed)).acted
  · exact acted_goes hseat.symm

/-- A put that arrives leaves the state settled. -/
theorem Settled.join (h : Settled syncDirAfterBatch groupCommitMaxBatch renames s)
    (hi : s.point i = .outside) (writers : Nat) (late : Bool) :
    Settled syncDirAfterBatch groupCommitMaxBatch renames
        (s.join i groupCommitMaxBatch writers late) ∧
      Acted i s (s.join i groupCommitMaxBatch writers late) := by
  obtain ⟨b, k, entered, hentered, hjoin⟩ := h.join_cases hi writers late
  have hfree : (entered.point i).isCommitter = false := by
    rw [hentered.point]
    rfl
  have hseat : (entered.point i).seat = some (b, k) := by
    rw [hentered.point]
    rfl
  rcases hjoin with htake | ⟨hroom, ⟨rfl, hlead⟩ | ⟨hlater, hwait⟩⟩
  · rw [htake]
    constructor
    · exact hentered.orderly.take hentered.elsewhere hfree hseat hentered.gathering
    · have hfurther := further_take hseat (stage_eq_gathering hentered.gathering)
      exact hentered.acted.trans hfurther.acted
  · rw [hlead]
    constructor
    · exact hentered.orderly.lead hentered.elsewhere (fun _ => hroom) hfree hseat ..
    · exact hentered.acted.trans (acted_lead hentered.orderly.flagged hseat ..)
  · rw [hwait]
    constructor
    · apply hentered.orderly.awaitDone hentered.elsewhere (fun _ => hroom) hfree hseat
      exact fun hzero => absurd hzero hlater
    · exact hentered.acted.trans (acted_awaitDone hseat)

theorem Settled.awaitDone (h : Settled syncDirAfterBatch groupCommitMaxBatch renames s)
    (hi : s.point i = .waits b k false) :
    Settled syncDirAfterBatch groupCommitMaxBatch renames (s.awaitDone i b k) := by
  have hplaced := h.orderly.arranged.placed i
  rw [hi] at hplaced
  apply h.orderly.awaitDone (h.elsewhere i b) (h.room b)
  · rw [hi]
    rfl
  · rw [hi]
    rfl
  · exact hplaced.2

theorem Settled.lead (h : Settled syncDirAfterBatch groupCommitMaxBatch renames s) {asleep : Bool}
    (hi : s.point i = .leads b asleep) (writers : Nat) (late : Bool) :
    Settled syncDirAfterBatch groupCommitMaxBatch renames (s.lead i b writers late) := by
  apply h.orderly.lead (h.elsewhere i b) (h.room b)
  · rw [hi]
    rfl
  · rw [hi]
    rfl

/-- A committer does not wait on the condition variable. -/
theorem goes_woken (hi : (s.point i).isCommitter = true) : s.goes i (s.point i).woken = s := by
  have hwoken : (s.point i).woken = s.point i := by
    cases hp : s.point i <;> first | rfl | rw [hp] at hi; cases hi
  rw [hwoken, BatchState.goes, Function.update_eq_self]

theorem Settled.wake (h : Settled syncDirAfterBatch groupCommitMaxBatch renames s) :
    Settled syncDirAfterBatch groupCommitMaxBatch renames (s.goes i (s.point i).woken) := by
  cases hi : (s.point i).isCommitter with
  | true =>
    rw [goes_woken hi]
    exact h
  | false =>
    apply h.orderly.goes (h.elsewhere i 0) (h.room 0) hi
    · exact Point.seat_woken _
    · exact placed_woken (h.orderly.arranged.placed i)
    · exact fun b k => Point.woken_ne_enters (h.between i b k)

theorem Settled.proceed (h : Settled syncDirAfterBatch groupCommitMaxBatch renames s)
    (hstep : PutStep syncDirAfterBatch renames i s s') :
    Settled syncDirAfterBatch groupCommitMaxBatch renames s' := by
  cases hstep with
  | lead hi => exact h.lead hi ..
  | wait hi => exact h.awaitDone hi
  | begin hi hlock => exact h.begin hi hlock
  | finish hi hemits => exact h.finish hi hemits
  | tell hi => exact h.tell hi

/-- Every step leaves the state settled. -/
theorem Settled.step (h : Settled syncDirAfterBatch groupCommitMaxBatch renames s)
    (hstep : BatchStep syncDirAfterBatch groupCommitMaxBatch renames s s') :
    Settled syncDirAfterBatch groupCommitMaxBatch renames s' := by
  cases hstep with
  | join hi => exact (h.join hi ..).1
  | proceed hput => exact h.proceed hput
  | look hi => exact h.lead hi ..
  | wake => exact h.wake

theorem settled_of_reaches
    (h : Relation.ReflTransGen (BatchStep syncDirAfterBatch groupCommitMaxBatch renames) {} s) :
    Settled syncDirAfterBatch groupCommitMaxBatch renames s := by
  induction h with
  | refl => exact settled_init
  | tail _ hstep ih => exact ih.step hstep

/-! ## The work of one put -/

theorem PutStep.acted (h : Settled syncDirAfterBatch groupCommitMaxBatch renames s)
    (hstep : PutStep syncDirAfterBatch renames i s s') : Acted i s s' := by
  have hplaced := h.orderly.arranged.placed i
  cases hstep with
  | lead hi =>
    apply acted_lead h.orderly.flagged
    rw [hi]
    rfl
  | wait hi =>
    apply acted_awaitDone
    rw [hi]
    rfl
  | begin hi hlock =>
    rw [hi] at hplaced
    exact (further_begin hi hplaced.1 hlock).acted
  | finish hi _ =>
    rw [hi] at hplaced
    exact (further_finish hi hplaced.1 hplaced.2.2).acted
  | tell hi =>
    rw [hi] at hplaced
    exact (further_tell hi hplaced).acted

/-- A step is the work of one put; a committer that works proceeds. -/
theorem BatchStep.acted (h : Settled syncDirAfterBatch groupCommitMaxBatch renames s)
    (hstep : BatchStep syncDirAfterBatch groupCommitMaxBatch renames s s') :
    ∃ j, Acted j s s' ∧ ((s.point j).isCommitter = true →
      PutStep syncDirAfterBatch renames j s s' ∨ s' = s) := by
  cases hstep with
  | @join i _ _ hi =>
    refine ⟨i, (h.join hi ..).2, fun hcommitter => ?_⟩
    rw [hi] at hcommitter
    cases hcommitter
  | @proceed i _ hput => exact ⟨i, hput.acted h, fun _ => .inl hput⟩
  | @look i b _ hi =>
    refine ⟨i, ?_, fun hcommitter => ?_⟩
    · apply acted_lead h.orderly.flagged
      rw [hi]
      rfl
    · rw [hi] at hcommitter
      cases hcommitter
  | @wake i =>
    exact ⟨i, acted_goes (Point.seat_woken _), fun hcommitter => .inr (goes_woken hcommitter)⟩

end Steps

end FileService.Posix
