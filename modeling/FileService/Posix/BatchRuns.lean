import FileService.Posix.BatchActions

/-!
# Runs of puts that share batches

Between two steps no put is in the middle of entering a batch, and a batch that
still gathers entries has room for one more. Every step keeps this, with the
invariant.
-/
namespace FileService.Posix
open FileService.Common FileService.Domain FileService.Interaction

/-! ## Flags and records -/

section Flags
variable {ι : Type} {i : ι} {b k : Nat} {y : Stage ι} {s s' : BatchState ι}
variable {syncDirAfterBatch : Bool} {groupCommitMaxBatch : Nat} {renames : ι → List PendingRename}

theorem Stage.Next.sealed {x : Stage ι} (h : Stage.Next i x y) : y.isSealed = true := by
  cases h <;> rfl

/-- What the new stage of one batch has in common with the old one, every batch keeps. -/
theorem stage_keeps {α : Type} {f : Stage ι → α} (h : s'.stage = Function.update s.stage b y)
    (hy : f y = f (s.stage b)) (b' : Nat) : f (s'.stage b') = f (s.stage b') := by
  rw [h]
  by_cases hne : b' = b
  · rw [hne, Function.update_self, hy]
  · rw [Function.update_of_ne hne]

/-- An action on one batch leaves the put its seat. -/
theorem Seated.further (hs : Seated groupCommitMaxBatch s) (h : TakesFurther i b y s s')
    (hmade : s'.made = s.made) : Seated groupCommitMaxBatch s' := by
  apply hs.of_seats h.members _ hmade.ge
  intro j
  by_cases hj : j = i
  · rw [hj, h.seat]
  · rw [h.point j hj]
    split
    · exact Point.seat_woken _
    · rfl

/-- The flags agree with the stages if those of the one batch do. -/
theorem Flagged.further (hs : Flagged s) (h : TakesFurther i b y s s') (hb : b < s.made)
    (hsealed : (s'.batches b).sealed = true) (hdone : (s'.batches b).done = y.isTold)
    (hentries : (s'.batches b).entries = [])
    (hcurrent : ∀ b', s'.current = some b' → b' ≠ b ∧ s.current = some b')
    (hmade : s'.made = s.made) : Flagged s' := by
  have hother : ∀ b' ≠ b, s'.stage b' = s.stage b' := by
    intro b' hne
    rw [h.stage, Function.update_of_ne hne]
  have hself : s'.stage b = y := by
    rw [h.stage, Function.update_self]
  constructor
  · intro b'
    by_cases hne : b' = b
    · rw [hne, hself, hsealed, h.next.sealed]
    · rw [h.batches b' hne, hother b' hne]
      exact hs.sealed b'
  · intro b'
    by_cases hne : b' = b
    · rw [hne, hself, hdone]
    · rw [h.batches b' hne, hother b' hne]
      exact hs.done b'
  · intro b'
    by_cases hne : b' = b
    · rw [hne, hself, hentries, if_pos h.next.sealed]
    · rw [h.batches b' hne, hother b' hne, h.members]
      exact hs.entries b'
  · intro b' hb'
    obtain ⟨hne, hb'⟩ := hcurrent b' hb'
    rw [hother b' hne, hmade]
    exact hs.current b' hb'
  · intro b' hb'
    rw [hmade] at hb'
    rw [hother b' (by omega)]
    exact hs.fresh b' hb'

/-- A sealed batch has handed its entries out and is not the current one. -/
theorem Flagged.of_sealed (hs : Flagged s) (hb : (s.stage b).isSealed = true) :
    (s.batches b).sealed = true ∧ (s.batches b).entries = [] ∧ b < s.made ∧
      ∀ b', s.current = some b' → b' ≠ b := by
  refine ⟨(hs.sealed b).trans hb, (hs.entries b).trans (if_pos hb), ?_, ?_⟩
  · by_contra hmade
    rw [hs.fresh b (not_lt.mp hmade)] at hb
    cases hb
  · rintro b' hb' rfl
    rw [(hs.current b' hb').1] at hb
    cases hb

/-- The records stay true while nothing is begun or ended. -/
theorem Recorded.of_same (h : Recorded syncDirAfterBatch renames s) (hcalled : s'.called = s.called)
    (hanswered : s'.answered = s.answered)
    (hbegun : ∀ b, (s'.stage b).begunBy = (s.stage b).begunBy)
    (hended : ∀ b, (s'.stage b).endedBy = (s.stage b).endedBy)
    (hmembers : ∀ b c, (s.stage b).begunBy = some c → s'.members b = s.members b)
    (hresults : ∀ b c, (s.stage b).endedBy = some c →
      (s'.batches b).results = (s.batches b).results) : Recorded syncDirAfterBatch renames s' := by
  have hboth : ∀ b c, (s.stage b).endedBy = some c → (s.stage b).begunBy = some c := by
    intro b c hb
    cases hstage : s.stage b <;> rw [hstage] at hb <;> first | cases hb; done | exact hb
  constructor
  · intro call
    rw [hcalled, hbegun, h.called call]
    constructor
    · rintro ⟨hcommitter, hentries⟩
      exact ⟨hcommitter, by rw [hmembers _ _ hcommitter, hentries]⟩
    · rintro ⟨hcommitter, hentries⟩
      exact ⟨hcommitter, by rw [hentries, hmembers _ _ hcommitter]⟩
  · rw [hcalled]
    exact h.once
  · intro call results
    rw [hanswered, hended, h.answered call results]
    constructor
    · rintro ⟨hcommitter, hentries, hkept⟩
      rw [hmembers _ _ (hboth _ _ hcommitter), hresults _ _ hcommitter]
      exact ⟨hcommitter, hentries, hkept⟩
    · rintro ⟨hcommitter, hentries, hkept⟩
      rw [hmembers _ _ (hboth _ _ hcommitter)] at hentries
      rw [hresults _ _ hcommitter] at hkept
      exact ⟨hcommitter, hentries, hkept⟩
  · intro b c hb
    rw [hended] at hb
    rw [hmembers b c (hboth b c hb), hresults b c hb]
    exact h.emitted b c hb

theorem Recorded.further (hs : Recorded syncDirAfterBatch renames s) (h : TakesFurther i b y s s')
    (hcalled : s'.called = s.called) (hanswered : s'.answered = s.answered)
    (hbegun : y.begunBy = (s.stage b).begunBy) (hended : y.endedBy = (s.stage b).endedBy)
    (hresults : (s'.batches b).results = (s.batches b).results) :
    Recorded syncDirAfterBatch renames s' := by
  apply hs.of_same hcalled hanswered
  · exact stage_keeps h.stage hbegun
  · exact stage_keeps h.stage hended
  · exact fun _ _ _ => congrFun h.members _
  · intro b' c _
    by_cases hne : b' = b
    · rw [hne, hresults]
    · rw [h.batches b' hne]

/-- A member of a batch that is past its commit has a result. -/
theorem Recorded.result (h : Recorded syncDirAfterBatch renames s) {c : ι}
    (hb : (s.stage b).endedBy = some c) (hi : (s.members b)[k]? = some i) :
    ∃ r, (s.batches b).results[k]? = some r := by
  obtain ⟨t, hemits⟩ := h.emitted b c hb
  have hlength := length_commitBatch hemits
  rw [entriesOf, List.length_map] at hlength
  obtain ⟨hk, -⟩ := List.getElem?_eq_some_iff.mp hi
  exact ⟨_, List.getElem?_eq_getElem (hlength ▸ hk)⟩

end Flags

section Records
variable {ι : Type} [DecidableEq ι] {i : ι} {b k : Nat} {s : BatchState ι} {committed : List ι}
variable {syncDirAfterBatch : Bool} {renames : ι → List PendingRename}

theorem Recorded.begin (h : Recorded syncDirAfterBatch renames s) (hb : s.stage b = .taken i)
    (hcommitted : committed = s.members b) :
    Recorded syncDirAfterBatch renames (s.begin i b k committed) := by
  have hstage : (s.begin i b k committed).stage = Function.update s.stage b (.begun i) := rfl
  have hended : ∀ b', ((s.begin i b k committed).stage b').endedBy = (s.stage b').endedBy := by
    apply stage_keeps hstage
    rw [hb]
    rfl
  have hnot : ∀ call ∈ s.called, call.batch ≠ b := by
    rintro call hcall rfl
    have hcommitter := ((h.called call).mp hcall).1
    rw [hb] at hcommitter
    cases hcommitter
  constructor
  · intro call
    rw [hstage]
    dsimp only [BatchState.begin]
    rw [List.mem_cons]
    by_cases hne : call.batch = b
    · rw [hne, Function.update_self]
      constructor
      · rintro (rfl | hcall)
        · exact ⟨rfl, hcommitted⟩
        · exact absurd hne (hnot call hcall)
      · rintro ⟨hcommitter, hentries⟩
        left
        cases call
        cases hcommitter
        simp_all
    · rw [Function.update_of_ne hne, ← h.called call]
      constructor
      · rintro (rfl | hcall)
        · exact absurd rfl hne
        · exact hcall
      · exact .inr
  · dsimp only [BatchState.begin]
    rw [List.map_cons, List.nodup_cons]
    refine ⟨?_, h.once⟩
    rw [List.mem_map]
    rintro ⟨call, hcall, hbatch⟩
    exact hnot call hcall hbatch
  · intro call results
    rw [hended]
    exact h.answered call results
  · intro b' c hc
    rw [hended] at hc
    exact h.emitted b' c hc

theorem Recorded.finish {t : Trace posix} {results : List (Result Unit)}
    (h : Recorded syncDirAfterBatch renames s) (hb : s.stage b = .begun i)
    (hcommitted : committed = s.members b)
    (hemits : (commitBatch syncDirAfterBatch (entriesOf renames committed)).Emits t results) :
    Recorded syncDirAfterBatch renames (s.finish i b k committed results) := by
  have hstage : (s.finish i b k committed results).stage = Function.update s.stage b (.ended i) :=
    rfl
  have hresults : (s.finish i b k committed results).batches =
    Function.update s.batches b { s.batches b with results } := rfl
  have hbegun : ∀ b', ((s.finish i b k committed results).stage b').begunBy =
      (s.stage b').begunBy := by
    apply stage_keeps hstage
    rw [hb]
    rfl
  constructor
  · intro call
    rw [hbegun]
    exact h.called call
  · exact h.once
  · intro call results'
    rw [hstage, hresults]
    dsimp only [BatchState.finish]
    rw [List.mem_cons]
    by_cases hne : call.batch = b
    · rw [hne, Function.update_self, Function.update_self]
      constructor
      · rintro (hcall | hcall)
        · cases hcall
          exact ⟨rfl, hcommitted, rfl⟩
        · have hcommitter := ((h.answered call results').mp hcall).1
          rw [hne, hb] at hcommitter
          cases hcommitter
      · rintro ⟨hcommitter, hentries, rfl⟩
        left
        cases call
        cases hcommitter
        simp_all
    · rw [Function.update_of_ne hne, Function.update_of_ne hne, ← h.answered call results']
      constructor
      · rintro (hcall | hcall)
        · cases hcall
          exact absurd rfl hne
        · exact hcall
      · exact .inr
  · intro b' c hc
    rw [hstage] at hc
    rw [hresults]
    by_cases hne : b' = b
    · rw [hne, Function.update_self]
      rw [hcommitted] at hemits
      exact ⟨t, hemits⟩
    · rw [Function.update_of_ne hne] at hc ⊢
      exact h.emitted b' c hc

end Records

/-! ## Between the steps -/

section Settling
variable {ι : Type} {i : ι} {b k : Nat} {s : BatchState ι}
variable {syncDirAfterBatch : Bool} {groupCommitMaxBatch : Nat} {renames : ι → List PendingRename}

structure Orderly (syncDirAfterBatch : Bool) (groupCommitMaxBatch : Nat)
    (renames : ι → List PendingRename) (s : BatchState ι) : Prop where
  seated : Seated groupCommitMaxBatch s
  arranged : Arranged s
  flagged : Flagged s
  recorded : Recorded syncDirAfterBatch renames s

/-- Apart from the put and the batch, every batch that gathers has room and no put is entering. -/
structure Elsewhere (groupCommitMaxBatch : Nat) (i : ι) (b : Nat) (s : BatchState ι) : Prop where
  room : ∀ b' ≠ b, (s.stage b').isSealed = false →
    (s.members b').length < max 1 groupCommitMaxBatch
  between : ∀ j ≠ i, ∀ b' k, s.point j ≠ .enters b' k

structure Settled (syncDirAfterBatch : Bool) (groupCommitMaxBatch : Nat)
    (renames : ι → List PendingRename) (s : BatchState ι) : Prop where
  orderly : Orderly syncDirAfterBatch groupCommitMaxBatch renames s
  room : ∀ b, (s.stage b).isSealed = false → (s.members b).length < max 1 groupCommitMaxBatch
  between : ∀ j b k, s.point j ≠ .enters b k

theorem Settled.elsewhere (h : Settled syncDirAfterBatch groupCommitMaxBatch renames s) (i : ι)
    (b : Nat) : Elsewhere groupCommitMaxBatch i b s :=
  ⟨fun b' _ => h.room b', fun j _ => h.between j⟩

/-- The state before the first put. -/
theorem settled_init : Settled syncDirAfterBatch groupCommitMaxBatch renames ({} : BatchState ι) := by
  refine ⟨⟨?_, ?_, ?_, ?_⟩, ?_, ?_⟩
  · exact ⟨by simp [Point.seat], by simp, by simp⟩
  · exact ⟨fun _ => trivial, fun _ => trivial, by simp⟩
  · exact ⟨fun _ => rfl, fun _ => rfl, fun _ => rfl, by simp, fun _ _ => rfl⟩
  · exact ⟨by simp, List.nodup_nil, by simp, by simp⟩
  · intro b _
    exact lt_of_lt_of_le Nat.one_pos (le_max_left ..)
  · intro _ _ _ hp
    cases hp

theorem Orderly.seat_made (h : Orderly syncDirAfterBatch groupCommitMaxBatch renames s)
    (hseat : (s.point i).seat = some (b, k)) : b < s.made := by
  by_contra hmade
  have hk := (h.seated.seats i b k).mp hseat
  rw [h.seated.fresh b (not_lt.mp hmade)] at hk
  cases hk

theorem stage_eq_gathering (hb : (s.stage b).isSealed = false) : s.stage b = .gathering := by
  cases hstage : s.stage b <;> simp [hstage] at hb ⊢

end Settling

section Steps
variable {ι : Type} [DecidableEq ι] {i : ι} {b k : Nat} {s s' : BatchState ι}
variable {syncDirAfterBatch : Bool} {groupCommitMaxBatch : Nat} {renames : ι → List PendingRename}

/-- A put that commits nothing changes its place. -/
theorem Orderly.goes (h : Orderly syncDirAfterBatch groupCommitMaxBatch renames s)
    (helse : Elsewhere groupCommitMaxBatch i b s)
    (hroom : (s.stage b).isSealed = false → (s.members b).length < max 1 groupCommitMaxBatch)
    (hi : (s.point i).isCommitter = false) {p : Point ι} (hseat : p.seat = (s.point i).seat)
    (hp : Placed s i p) (hbetween : ∀ b k, p ≠ .enters b k) :
    Settled syncDirAfterBatch groupCommitMaxBatch renames (s.goes i p) := by
  refine ⟨⟨h.seated.goes hseat, h.arranged.goes hi hseat hp, ?_, ?_⟩, ?_, ?_⟩
  · exact ⟨h.flagged.sealed, h.flagged.done, h.flagged.entries, h.flagged.current, h.flagged.fresh⟩
  · exact ⟨h.recorded.called, h.recorded.once, h.recorded.answered, h.recorded.emitted⟩
  · intro b'
    by_cases hne : b' = b
    · subst hne
      exact hroom
    · exact helse.room b' hne
  · intro j
    by_cases hj : j = i
    · subst hj
      dsimp only [BatchState.goes]
      rw [Function.update_self]
      exact hbetween
    · dsimp only [BatchState.goes]
      rw [Function.update_of_ne hj]
      exact helse.between j hj

theorem Orderly.take (h : Orderly syncDirAfterBatch groupCommitMaxBatch renames s)
    (helse : Elsewhere groupCommitMaxBatch i b s) (hi : (s.point i).isCommitter = false)
    (hseat : (s.point i).seat = some (b, k)) (hb : (s.stage b).isSealed = false) :
    Settled syncDirAfterBatch groupCommitMaxBatch renames (s.take i b k) := by
  have hstage := stage_eq_gathering hb
  have hfurther : TakesFurther i b (.taken i) s (s.take i b k) := further_take hseat hstage
  have hentries : (s.batches b).entries = s.members b := by
    rw [h.flagged.entries, if_neg (hb ▸ Bool.false_ne_true)]
  have hself : (s.take i b k).batches b = { s.batches b with sealed := true, entries := [] } :=
    Function.update_self ..
  refine ⟨⟨?_, h.arranged.take hi hseat hstage hentries, ?_, ?_⟩, ?_, ?_⟩
  · exact h.seated.further hfurther rfl
  · apply h.flagged.further hfurther (h.seat_made hseat)
    · rw [hself]
    · rw [hself]
      exact (h.flagged.done b).trans (by rw [hstage]; rfl)
    · rw [hself]
    · intro b' hb'
      dsimp only [BatchState.take] at hb'
      split at hb'
      · cases hb'
      · rename_i hcurrent
        exact ⟨fun hne => hcurrent (hne ▸ hb'), hb'⟩
    · rfl
  · apply h.recorded.further hfurther
    · rfl
    · rfl
    · rw [hstage]
      rfl
    · rw [hstage]
      rfl
    · rw [hself]
  · intro b' hb'
    dsimp only [BatchState.take] at hb' ⊢
    by_cases hne : b' = b
    · rw [hne, Function.update_self] at hb'
      cases hb'
    · rw [Function.update_of_ne hne] at hb'
      exact helse.room b' hne hb'
  · intro j
    dsimp only [BatchState.take]
    by_cases hj : j = i
    · rw [hj, Function.update_self]
      exact fun _ _ hp => nomatch hp
    · rw [Function.update_of_ne hj]
      exact helse.between j hj

/-- The batch is done and the put leaves with its result, or it waits. -/
theorem Orderly.awaitDone (h : Orderly syncDirAfterBatch groupCommitMaxBatch renames s)
    (helse : Elsewhere groupCommitMaxBatch i b s)
    (hroom : (s.stage b).isSealed = false → (s.members b).length < max 1 groupCommitMaxBatch)
    (hi : (s.point i).isCommitter = false) (hseat : (s.point i).seat = some (b, k))
    (hfirst : k = 0 → (s.stage b).isSealed = true) :
    Settled syncDirAfterBatch groupCommitMaxBatch renames (s.awaitDone i b k) := by
  unfold BatchState.awaitDone
  rw [h.flagged.done]
  split
  · rename_i htold
    have hended : ∃ c, (s.stage b).endedBy = some c := by
      cases hstage : s.stage b <;> simp [hstage] at htold ⊢
    obtain ⟨c, hc⟩ := hended
    obtain ⟨r, hr⟩ := h.recorded.result hc ((h.seated.seats i b k).mp hseat)
    rw [leave_eq hr]
    apply h.goes helse hroom hi
    · exact hseat.symm
    · exact ⟨htold, hr⟩
    · exact fun _ _ hp => nomatch hp
  · rename_i htold
    apply h.goes helse hroom hi
    · exact hseat.symm
    · exact ⟨fun _ => Bool.not_eq_true _ ▸ htold, hfirst⟩
    · exact fun _ _ hp => nomatch hp

theorem Orderly.lead (h : Orderly syncDirAfterBatch groupCommitMaxBatch renames s)
    (helse : Elsewhere groupCommitMaxBatch i b s)
    (hroom : (s.stage b).isSealed = false → (s.members b).length < max 1 groupCommitMaxBatch)
    (hi : (s.point i).isCommitter = false) (hseat : (s.point i).seat = some (b, 0))
    (writers : Nat) (late : Bool) :
    Settled syncDirAfterBatch groupCommitMaxBatch renames (s.lead i b writers late) := by
  unfold BatchState.lead
  rw [h.flagged.sealed]
  split
  · split
    · rename_i hsealed
      exact h.awaitDone helse hroom hi hseat fun _ => hsealed
    · rename_i hsealed
      exact h.take helse hi hseat (Bool.not_eq_true _ ▸ hsealed)
  · apply h.goes helse hroom hi
    · exact hseat.symm
    · trivial
    · exact fun _ _ hp => nomatch hp

omit [DecidableEq ι] in
/-- After an action on one batch the batches have room and nobody is entering. -/
theorem Settled.further {y : Stage ι} (hs : Settled syncDirAfterBatch groupCommitMaxBatch renames s)
    (h : TakesFurther i b y s s') (hbetween : ∀ b k, s'.point i ≠ .enters b k)
    (horderly : Orderly syncDirAfterBatch groupCommitMaxBatch renames s') :
    Settled syncDirAfterBatch groupCommitMaxBatch renames s' := by
  refine ⟨horderly, ?_, ?_⟩
  · intro b' hb'
    rw [h.members]
    rw [h.stage] at hb'
    by_cases hne : b' = b
    · rw [hne, Function.update_self, h.next.sealed] at hb'
      cases hb'
    · rw [Function.update_of_ne hne] at hb'
      exact hs.room b' hb'
  · intro j b' k hp
    by_cases hj : j = i
    · subst hj
      exact hbetween b' k hp
    · rw [h.point j hj] at hp
      have hnot := hs.between j b' k
      split at hp
      · cases hpoint : s.point j <;> simp_all [Point.woken]
      · exact hnot hp

theorem Settled.begin {committed : List ι}
    (hs : Settled syncDirAfterBatch groupCommitMaxBatch renames s)
    (hi : s.point i = .commits b k committed) (hlock : s.commitLock = none) :
    Settled syncDirAfterBatch groupCommitMaxBatch renames (s.begin i b k committed) := by
  have h := hs.orderly
  have hplaced := h.arranged.placed i
  rw [hi] at hplaced
  obtain ⟨hb, hcommitted⟩ := hplaced
  have hfurther : TakesFurther i b (.begun i) s (s.begin i b k committed) :=
    further_begin hi hb hlock
  obtain ⟨hsealed, hentries, hmade, hcurrent⟩ := h.flagged.of_sealed (by rw [hb]; rfl)
  apply hs.further hfurther
  · rw [begin_point]
    exact fun _ _ hp => nomatch hp
  refine ⟨?_, h.arranged.begin hi hlock, ?_, h.recorded.begin hb hcommitted⟩
  · exact h.seated.further hfurther rfl
  · apply h.flagged.further hfurther hmade hsealed _ hentries _ rfl
    · exact (h.flagged.done b).trans (by rw [hb]; rfl)
    · exact fun b' hb' => ⟨hcurrent b' hb', hb'⟩

theorem Settled.finish {committed : List ι} {t : Trace posix} {results : List (Result Unit)}
    (hs : Settled syncDirAfterBatch groupCommitMaxBatch renames s)
    (hi : s.point i = .committing b k committed)
    (hemits : (commitBatch syncDirAfterBatch (entriesOf renames committed)).Emits t results) :
    Settled syncDirAfterBatch groupCommitMaxBatch renames (s.finish i b k committed results) := by
  have h := hs.orderly
  have hplaced := h.arranged.placed i
  rw [hi] at hplaced
  obtain ⟨hb, hcommitted, hlock⟩ := hplaced
  have hfurther : TakesFurther i b (.ended i) s (s.finish i b k committed results) :=
    further_finish hi hb hlock
  obtain ⟨hsealed, hentries, hmade, hcurrent⟩ := h.flagged.of_sealed (by rw [hb]; rfl)
  have hself : (s.finish i b k committed results).batches b = { s.batches b with results } :=
    Function.update_self ..
  apply hs.further hfurther
  · rw [finish_point]
    exact fun _ _ hp => nomatch hp
  refine ⟨?_, h.arranged.finish hi, ?_, h.recorded.finish hb hcommitted hemits⟩
  · exact h.seated.further hfurther rfl
  · apply h.flagged.further hfurther hmade _ _ _ _ rfl
    · rw [hself]
      exact hsealed
    · rw [hself]
      exact (h.flagged.done b).trans (by rw [hb]; rfl)
    · rw [hself]
      exact hentries
    · exact fun b' hb' => ⟨hcurrent b' hb', hb'⟩

theorem Settled.tell (hs : Settled syncDirAfterBatch groupCommitMaxBatch renames s)
    (hi : s.point i = .tells b k) :
    Settled syncDirAfterBatch groupCommitMaxBatch renames ((s.tell i b).leave i b k) := by
  have h := hs.orderly
  have hb : s.stage b = .ended i := by
    have hplaced := h.arranged.placed i
    rw [hi] at hplaced
    exact hplaced
  have hfurther : TakesFurther i b (.told i) s ((s.tell i b).leave i b k) :=
    further_tell hi hb
  obtain ⟨hsealed, hentries, hmade, hcurrent⟩ := h.flagged.of_sealed (by rw [hb]; rfl)
  have hended : (s.stage b).endedBy = some i := by rw [hb]; rfl
  have hseat : (s.point i).seat = some (b, k) := by rw [hi]; rfl
  obtain ⟨r, hr⟩ := h.recorded.result hended ((h.seated.seats i b k).mp hseat)
  have hself : ((s.tell i b).leave i b k).batches b = { s.batches b with done := true } :=
    Function.update_self ..
  apply hs.further hfurther
  · rw [leave_point]
    exact fun _ _ hp => nomatch hp
  refine ⟨?_, h.arranged.tell hi hr, ?_, ?_⟩
  · exact h.seated.further hfurther rfl
  · apply h.flagged.further hfurther hmade _ _ _ _ rfl
    · rw [hself]
      exact hsealed
    · rw [hself]
      rfl
    · rw [hself]
      exact hentries
    · exact fun b' hb' => ⟨hcurrent b' hb', hb'⟩
  · apply h.recorded.further hfurther
    · rfl
    · rfl
    · rw [hb]
      rfl
    · rw [hb]
      rfl
    · rw [hself]

end Steps

end FileService.Posix
