import FileService.App.Support
import FileService.Safety.ZoneStores

/-!
# Copies between zones

A copy inside one store is faithful. A copy from one store to another one reads
the source by ranges up to the size that a stat gave, and takes both an absent
source and an empty read for the end of the object.
-/
namespace FileService.Safety
open FileService.Common FileService.Domain FileService.App FileService.Interaction
open FileService.Interaction.Action (Returns)

/-! ## Contents of a source that is only cut -/

section Contents
variable {z : ZonePair} {w w' : CopyState} {whole b : Bytes} {op : Port} {r : op.Reply} {n : Nat}

/-- All contents of the source are prefixes of the first, and the present one is the shortest. -/
structure Shrinking (whole : Bytes) (w : CopyState) : Prop where
  seen : ∀ b ∈ w.seen, b <+: whole
  source : ∀ b, w.source = some b → b ∈ w.seen ∧ ∀ v ∈ w.seen, b.length ≤ v.length

/-- No content has this length, and no later one will. -/
structure Missed (n : Nat) (w : CopyState) : Prop where
  seen : ∀ b ∈ w.seen, b.length ≠ n
  source : ∀ b, w.source = some b → b.length < n

theorem eq_of_length {a b : Bytes} (ha : a <+: whole) (hb : b <+: whole)
    (hlength : a.length = b.length) : a = b :=
  (List.prefix_of_prefix_length_le ha hb hlength.le).eq_of_length hlength

theorem shrinking_start (source target : Option Bytes) :
    Shrinking (source.getD []) (CopyState.start source target) := by
  cases source with
  | none => exact ⟨nofun, nofun⟩
  | some b => exact ⟨by simp [CopyState.start], by simp [CopyState.start]⟩

theorem Shrinking.holding {b' : Bytes} (h : Shrinking whole w) (hsource : w.source = some b)
    (hcut : b' <+: b) : Shrinking whole (w.holding b') := by
  obtain ⟨hb, hshortest⟩ := h.source b hsource
  constructor
  · simpa [CopyState.holding] using ⟨hcut.trans (h.seen b hb), h.seen⟩
  · rintro _ ⟨⟩
    refine ⟨List.mem_cons_self, ?_⟩
    simpa [CopyState.holding] using fun v hv => hcut.length_le.trans (hshortest v hv)

theorem Missed.holding {b' : Bytes} (h : Missed n w) (hsource : w.source = some b)
    (hcut : b' <+: b) : Missed n (w.holding b') := by
  have hlt := hcut.length_le.trans_lt (h.source b hsource)
  constructor
  · simpa [CopyState.holding] using ⟨hlt.ne, h.seen⟩
  · rintro _ ⟨⟩
    exact hlt

/-- A drift keeps what has been seen, and what holds of a source that is only cut. -/
structure KeepsSource (w w' : CopyState) : Prop where
  seen : ∀ b ∈ w.seen, b ∈ w'.seen
  shrinking : ∀ whole, Shrinking whole w → Shrinking whole w'
  missed : ∀ n, Missed n w → Missed n w'

theorem keepsSource_refl (w : CopyState) : KeepsSource w w := ⟨fun _ h => h, fun _ h => h, fun _ h => h⟩

theorem KeepsSource.trans {w'' : CopyState} (h : KeepsSource w w') (h' : KeepsSource w' w'') : KeepsSource w w'' :=
  ⟨fun b hb => h'.seen b (h.seen b hb), fun v hv => h'.shrinking v (h.shrinking v hv),
    fun n hn => h'.missed n (h.missed n hn)⟩

theorem keeps_holding {b' : Bytes} (hsource : w.source = some b) (hcut : b' <+: b) :
    KeepsSource w (w.holding b') :=
  ⟨fun _ => List.mem_cons_of_mem _, fun _ h => h.holding hsource hcut,
    fun _ h => h.holding hsource hcut⟩

theorem keeps_target (w : CopyState) (target : Option Bytes) : KeepsSource w { w with target } :=
  ⟨fun _ h => h, fun _ h => ⟨h.seen, h.source⟩, fun _ h => ⟨h.seen, h.source⟩⟩

theorem Drift.keeps (h : Drift w w') : KeepsSource w w' := by
  cases h with
  | stays => exact keepsSource_refl w
  | cut hsource hcut => exact keeps_holding hsource hcut
  | removed => exact ⟨fun _ h => h, fun _ h => ⟨h.seen, nofun⟩, fun _ h => ⟨h.seen, nofun⟩⟩

theorem Drift.target (h : Drift w w') : w'.target = w.target := by
  cases h <;> rfl

theorem answers_keeps (h : Answers z w op r w') : KeepsSource w w' := by
  unfold Answers at h
  split at h
  · exact h ▸ keepsSource_refl w
  · exact h.2 ▸ keepsSource_refl w
  · exact h ▸ keepsSource_refl w
  · exact h.2 ▸ keepsSource_refl w
  · exact h ▸ keepsSource_refl w
  · obtain ⟨-, -, b, b', hsource, -, hcut, -, -, rfl⟩ := h
    exact keeps_holding hsource hcut
  · exact h ▸ keepsSource_refl w
  · obtain ⟨-, -, -, b, b', hsource, hcut, rfl⟩ := h
    exact (keeps_holding hsource hcut).trans (keeps_target _ _)
  · exact h ▸ keepsSource_refl w
  · obtain ⟨-, -, rfl⟩ := h
    exact keeps_target w _
  · exact h ▸ keepsSource_refl w

theorem copying_keeps (h : copying z w op r w') : KeepsSource w w' := by
  obtain ⟨w₁, hdrift, hanswer⟩ := h
  exact hdrift.keeps.trans (answers_keeps hanswer)

end Contents

/-! ## The condition -/

section Condition
variable (z : ZonePair) (t : List (Performed ports CopyState))

/-- The source is there when its size is asked for, or it was an empty object before it went. -/
def Found : Prop :=
  ∀ x ∈ t, x.op = .blobs z.fromStore (.stat z.source) →
    x.after.source ≠ none ∨ [] ∈ x.after.seen

/-- No read finds the source cut below the offset it was asked for. -/
def Uncut : Prop :=
  ∀ x ∈ t, ∀ range, x.op = .blobs z.fromStore (.get z.source range) →
    ∀ b, x.after.source = some b → range.offset ≤ b.length

end Condition

/-! ## Reading up to a size -/

section Reading
variable {z : ZonePair} {s s' : CopyState} {t : List (Performed ports CopyState)} {whole data d : Bytes}
variable {α β : Type}

theorem returns_tryResult_bind {r : Result α} {f : α → Domain.Action β} {c : β} :
    Returns (copying z) (Action.tryResult r >>= f) s t c s' ↔
      ∃ a, r = .ok a ∧ Returns (copying z) (f a) s t c s' := by
  cases r with
  | ok a => simp [Action.tryResult]
  | error e =>
    have hfail : Action.tryResult (.error e : Result α) >>= f = throw (.error e) := rfl
    simp [hfail, Action.not_returns_throw]

theorem returns_tryResult {r : Result α} {a : α} :
    Returns (copying z) (Action.tryResult r) s t a s' ↔ r = .ok a ∧ t = [] ∧ s' = s := by
  cases r with
  | ok b => simp [Action.tryResult, Action.returns_pure, eq_comm, and_left_comm]
  | error e =>
    have hfail : (Action.tryResult (.error e : Result α)) = throw (.error e) := rfl
    simp [hfail, Action.not_returns_throw]

theorem uncut_cons {x : Performed ports CopyState} :
    Uncut z (x :: t) ↔ (∀ range, x.op = .blobs z.fromStore (.get z.source range) →
      ∀ b, x.after.source = some b → range.offset ≤ b.length) ∧ Uncut z t :=
  List.forall_mem_cons

/-- What reading up to a size gives: bytes that the source had, unless a read found it cut. -/
structure ReadOutcome (z : ZonePair) (whole : Bytes) (s : CopyState)
    (t : List (Performed ports CopyState)) (d : Bytes) (s' : CopyState) : Prop where
  shrinking : Shrinking whole s'
  keeps : KeepsSource s s'
  reads : ∀ x ∈ t, ∃ range, x.op = .blobs z.fromStore (.get z.source range)
  bytes : Uncut z t ∧ d ∈ s'.seen ∨ ¬Uncut z t ∧ Missed d.length s'

theorem readAll_returns {size rounds offset : Nat} (hinv : Shrinking whole s)
    (hdata : data <+: whole) (hlength : data.length = offset) (hoffset : offset ≤ size)
    (hrounds : size < offset + rounds) (hsize : ∃ v ∈ s.seen, v.length = size)
    (h : Returns (copying z) (readAll z.fromStore z.source size rounds offset data) s t d s') :
    ReadOutcome z whole s t d s' := by
  induction rounds generalizing offset data s t with
  | zero => omega
  | succ rounds ih =>
    unfold readAll at h
    by_cases hend : size ≤ offset
    · rw [if_pos hend] at h
      obtain ⟨rfl, rfl, rfl⟩ := Action.returns_pure.mp h
      obtain ⟨v, hv, hvlength⟩ := hsize
      have hsame : d = v := eq_of_length hdata (hinv.seen v hv) (by omega)
      rw [← hsame] at hv
      exact ⟨hinv, keepsSource_refl _, List.forall_mem_nil _, .inl ⟨List.forall_mem_nil _, hv⟩⟩
    · rw [if_neg hend] at h
      obtain ⟨r, s₁, rest, ⟨w, hdrift, hanswer⟩, rfl, hcalled⟩ := Action.returns_call_bind.mp h
      obtain ⟨chunk, rfl, hnext⟩ := returns_tryResult_bind.mp hcalled
      clear h hcalled
      have hread : ReadsSource w _ chunk s₁ := hanswer.2.2
      obtain ⟨b, b', hsource, hopen, hcut, hchunk, hempty, rfl⟩ := hread
      dsimp only at hopen hchunk hempty
      have hinv' := hdrift.keeps.shrinking whole hinv
      have hkeeps := hdrift.keeps.trans (keeps_holding hsource hcut)
      have hshrinking := hinv'.holding hsource hcut
      obtain ⟨hb, hshortest⟩ := hinv'.source b hsource
      have hb' : b' <+: whole := hcut.trans (hinv'.seen b hb)
      obtain ⟨hrest, hchunkLength⟩ := List.prefix_take_iff.mp hchunk
      have hchunkRest := hrest.length_le
      rw [List.length_drop] at hchunkRest
      rw [if_neg (by omega)] at hnext
      by_cases hnone : chunk = []
      · subst hnone
        obtain ⟨rfl, rfl, rfl⟩ := Action.returns_pure.mp hnext
        have hshort := hempty rfl
        refine ⟨hshrinking, hkeeps, by simp, ?_⟩
        rw [uncut_cons]
        by_cases hexact : b'.length = offset
        · have hsame : d = b' := eq_of_length hdata hb' (by omega)
          subst hsame
          refine .inl ⟨⟨?_, List.forall_mem_nil _⟩, List.mem_cons_self⟩
          rintro range ⟨⟩ _ ⟨⟩
          exact hexact.ge
        · refine .inr ⟨?_, ?_, ?_⟩
          · rintro ⟨huncut, -⟩
            have hle := huncut _ rfl b' rfl
            dsimp only at hle
            omega
          · intro v hv
            rcases List.mem_cons.mp hv with rfl | hv
            · omega
            · have hlong := hshortest v hv
              omega
          · rintro _ ⟨⟩
            omega
      · have hlengthPos := List.length_pos_iff.mpr hnone
        rw [if_neg (by simpa using hnone)] at hnext
        have hstart : data <+: b' := List.prefix_of_prefix_length_le hdata hb' (by omega)
        have hnew : data ++ chunk <+: whole := by
          rw [← hlength] at hrest
          exact (append_extends hstart hrest).trans hb'
        have hknown : ∃ v ∈ (w.holding b').seen, v.length = size := by
          obtain ⟨v, hv, hvlength⟩ := hsize
          exact ⟨v, hkeeps.seen v hv, hvlength⟩
        have hout := ih hshrinking hnew (by simp [hlength]) (by omega) (by omega) hknown hnext
        have hfirst : ∀ range, Port.blobs z.fromStore (BlobCall.get z.source
            { offset, length := min readChunkBytes (size - offset) }) =
              Port.blobs z.fromStore (.get z.source range) →
            ∀ b, (w.holding b').source = some b → range.offset ≤ b.length := by
          rintro range ⟨⟩ _ ⟨⟩
          dsimp only
          omega
        refine ⟨hout.shrinking, hkeeps.trans hout.keeps, ?_, ?_⟩
        · exact List.forall_mem_cons.mpr ⟨⟨_, rfl⟩, hout.reads⟩
        · rw [uncut_cons]
          rcases hout.bytes with ⟨huncut, hseen⟩ | ⟨hcutBelow, hmissed⟩
          · exact .inl ⟨⟨hfirst, huncut⟩, hseen⟩
          · exact .inr ⟨fun hall => hcutBelow hall.2, hmissed⟩

end Reading

/-! ## The whole copy -/

section Copy
variable {z : ZonePair} {s s' : CopyState} {t : List (Performed ports CopyState)}

theorem found_cons {x : Performed ports CopyState} :
    Found z (x :: t) ↔ (x.op = .blobs z.fromStore (.stat z.source) →
      x.after.source ≠ none ∨ [] ∈ x.after.seen) ∧ Found z t :=
  List.forall_mem_cons

/-- Writing what was read, and describing the result. -/
theorem written_returns {d : Bytes} {stat : ObjectStat} (hne : z.fromStore ≠ z.toStore)
    (h : Returns (copying z) (do
      Action.tryResult (← Action.ask (.blobs z.toStore (.put z.target d {})))
      Action.tryResult (← Action.ask (.blobs z.toStore (.stat z.target)))) s t stat s') :
    s'.target = some d ∧ KeepsSource s s' ∧ Found z t ∧ Uncut z t := by
  obtain ⟨put, s₁, t₁, hput, rfl, h₁⟩ := Action.returns_call_bind.mp h
  obtain ⟨_, rfl, h₂⟩ := returns_tryResult_bind.mp h₁
  obtain ⟨described, s₂, t₂, hstat, rfl, h₃⟩ := Action.returns_call_bind.mp h₂
  obtain ⟨rfl, rfl, rfl⟩ := returns_tryResult.mp h₃
  have hkeeps := (copying_keeps hput).trans (copying_keeps hstat)
  obtain ⟨w₁, -, -, -, rfl⟩ := hput
  obtain ⟨w₂, hdrift, -, rfl⟩ := hstat
  refine ⟨hdrift.target, hkeeps, ?_, ?_⟩
  · rw [found_cons, found_cons]
    exact ⟨by simp, by simp [hne.symm], List.forall_mem_nil _⟩
  · rw [uncut_cons, uncut_cons]
    exact ⟨by simp, by simp, List.forall_mem_nil _⟩

theorem readAll_zero {rounds : Nat} {d : Bytes}
    (h : Returns (copying z) (readAll z.fromStore z.source 0 rounds 0 []) s t d s') :
    t = [] ∧ d = [] ∧ s' = s := by
  cases rounds with
  | zero => exact Action.returns_pure.mp h
  | succ rounds => exact Action.returns_pure.mp h

theorem found_append {t₂ : List (Performed ports CopyState)} :
    Found z (t ++ t₂) ↔ Found z t ∧ Found z t₂ := List.forall_mem_append

theorem uncut_append {t₂ : List (Performed ports CopyState)} :
    Uncut z (t ++ t₂) ↔ Uncut z t ∧ Uncut z t₂ := List.forall_mem_append

theorem not_faithful_of_missed {d : Bytes} (hmissed : Missed d.length s)
    (htarget : s.target = some d) : ¬s.Faithful := by
  rintro ⟨b, hb, hsame⟩
  rw [htarget] at hsame
  cases hsame
  exact hmissed.seen d hb rfl

/-- A copy from one store to another one, after its container was ensured. -/
theorem streamed_faithful_iff {whole : Bytes} {stat : ObjectStat} (hne : z.fromStore ≠ z.toStore)
    (hinv : Shrinking whole s)
    (h : Returns (copying z) (do
      let stat ← Action.tryResult (← Action.ask (.blobs z.fromStore (.stat z.source)))
      let size := stat.size.toNat
      let data ← readAll z.fromStore z.source size (size + 1) 0 []
      Action.tryResult (← Action.ask (.blobs z.toStore (.put z.target data {})))
      Action.tryResult (← Action.ask (.blobs z.toStore (.stat z.target)))) s t stat s') :
    s'.Faithful ↔ Found z t ∧ Uncut z t := by
  obtain ⟨sized, s₁, t₁, ⟨w, hdrift, hanswer⟩, rfl, h₁⟩ := Action.returns_call_bind.mp h
  obtain ⟨st, rfl, h₂⟩ := returns_tryResult_bind.mp h₁
  obtain ⟨tr, d, s₂, tw, rfl, hread, hwrite⟩ := Action.returns_bind.mp h₂
  obtain ⟨htarget, hkeeps, hfound, huncut⟩ := written_returns hne hwrite
  clear h h₁ h₂ hwrite
  obtain ⟨hdescribes, hsame⟩ := hanswer
  subst hsame
  obtain ⟨hexists, hsize⟩ := hdescribes ⟨rfl, rfl⟩
  have hshrinking := hdrift.keeps.shrinking whole hinv
  rw [found_cons, uncut_cons, found_append, uncut_append]
  cases hsource : s₁.source with
  | none =>
    simp only [hsource, Option.map_none, Option.getD_none] at hsize
    rw [hsize] at hread
    obtain ⟨rfl, rfl, rfl⟩ := readAll_zero hread
    by_cases hempty : [] ∈ s₂.seen
    · have hall : s'.Faithful := ⟨[], hkeeps.seen [] hempty, htarget⟩
      simp only [hall, true_iff]
      refine ⟨⟨fun _ => .inr hempty, List.forall_mem_nil _, hfound⟩, by simp, ?_⟩
      exact ⟨List.forall_mem_nil _, huncut⟩
    · have hmissed : Missed ([] : Bytes).length s₂ := by
        constructor
        · intro b hb hlength
          rw [List.length_eq_zero_iff.mp hlength] at hb
          exact hempty hb
        · rw [hsource]
          nofun
      have hnot := not_faithful_of_missed (hkeeps.missed _ hmissed) htarget
      simp only [hnot, false_iff]
      rintro ⟨⟨hstat, -⟩, -⟩
      rcases hstat trivial with hthere | hseen
      · exact hthere rfl
      · exact hempty hseen
  | some b =>
    simp only [hsource, Option.map_some, Option.getD_some] at hsize
    rw [hsize, Int.toNat_natCast] at hread
    have hseen := (hshrinking.source b hsource).1
    have hout := readAll_returns hshrinking List.nil_prefix rfl (Nat.zero_le _) (by omega)
      ⟨b, hseen, rfl⟩ hread
    have hfoundRead : Found z tr := by
      intro x hx hop
      obtain ⟨range, hget⟩ := hout.reads x hx
      rw [hget] at hop
      simp at hop
    rcases hout.bytes with ⟨huncutRead, hd⟩ | ⟨hcut, hmissed⟩
    · have hall : s'.Faithful := ⟨d, hkeeps.seen d hd, htarget⟩
      simp only [hall, true_iff]
      exact ⟨⟨fun _ => .inl nofun, hfoundRead, hfound⟩, by simp, huncutRead, huncut⟩
    · have hnot := not_faithful_of_missed (hkeeps.missed _ hmissed) htarget
      simp only [hnot, false_iff]
      rintro ⟨-, -, huncutRead, -⟩
      exact hcut huncutRead

end Copy

/-! ## Sample copies -/

section Sample

/-- A copy from one store to another one. -/
def samplePair : ZonePair where
  partition := "p"
  source := { container := "c", key := "k" }
  target := { container := "d", key := "k" }
  sourceZone := .staging
  targetZone := .persistent
  store
    | .staging => "a"
    | .persistent => "b"

def sampleCopy : Domain.Action ObjectStat :=
  copyBetweenZones samplePair.partition samplePair.source samplePair.target samplePair.sourceZone
    samplePair.targetZone

section Possible
variable {w s' : CopyState} {α β : Type} {c : β}

theorem possible_partition {partition : String} (zone : StorageZone) {f : StoreId → Domain.Action β}
    (h : ∃ t, Returns (copying samplePair) (f (samplePair.store zone)) w t c s') :
    ∃ t, Returns (copying samplePair)
      (Action.ask (.forPartition partition zone) >>= fun r => Action.tryResult r >>= f) w t c s' := by
  obtain ⟨t, ht⟩ := h
  have hcall : copying samplePair w (.forPartition partition zone) (.ok (samplePair.store zone)) w :=
    ⟨w, .stays, rfl, rfl⟩
  have htried := returns_tryResult_bind.mpr ⟨_, rfl, ht⟩
  exact ⟨_, Action.returns_call_bind.mpr ⟨_, w, t, hcall, rfl, htried⟩⟩

theorem possible_blobs (store : StoreId) (call : BlobCall) (value : call.Value) (w₁ : CopyState)
    {f : call.Value → Domain.Action β}
    (hanswer : Answers samplePair w (.blobs store call) (.ok value) w₁)
    (h : ∃ t, Returns (copying samplePair) (f value) w₁ t c s') :
    ∃ t, Returns (copying samplePair)
      (Action.ask (.blobs store call) >>= fun r => Action.tryResult r >>= f) w t c s' := by
  obtain ⟨t, ht⟩ := h
  have hcall : copying samplePair w (.blobs store call) (.ok value) w₁ := ⟨w, .stays, hanswer⟩
  have htried := returns_tryResult_bind.mpr ⟨_, rfl, ht⟩
  exact ⟨_, Action.returns_call_bind.mpr ⟨_, w₁, t, hcall, rfl, htried⟩⟩

theorem possible_bind {x : Domain.Action α} {a : α} {f : α → Domain.Action β} {w₁ : CopyState}
    (hx : ∃ t, Returns (copying samplePair) x w t a w₁)
    (h : ∃ t, Returns (copying samplePair) (f a) w₁ t c s') :
    ∃ t, Returns (copying samplePair) (x >>= f) w t c s' := by
  obtain ⟨t₁, h₁⟩ := hx
  obtain ⟨t₂, h₂⟩ := h
  exact ⟨_, Action.returns_bind.mpr ⟨t₁, a, w₁, t₂, rfl, h₁, h₂⟩⟩

/-- The first three calls of the sample copy leave the stat, the reads and the put. -/
theorem possible_sampleCopy {stat : ObjectStat} (h : ∃ t, Returns (copying samplePair) (do
      let stat ← Action.tryResult (← Action.ask (.blobs "a" (.stat samplePair.source)))
      let size := stat.size.toNat
      let data ← readAll "a" samplePair.source size (size + 1) 0 []
      Action.tryResult (← Action.ask (.blobs "b" (.put samplePair.target data {})))
      Action.tryResult (← Action.ask (.blobs "b" (.stat samplePair.target)))) w t stat s') :
    ∃ t, Returns (copying samplePair) sampleCopy w t stat s' := by
  unfold sampleCopy copyBetweenZones
  apply possible_partition
  apply possible_partition
  apply possible_blobs "b" (.ensureContainer "d") () w rfl
  rw [if_neg (by decide)]
  exact h

/-- The last two calls. -/
theorem possible_written (d : Bytes) (w : CopyState) : ∃ t, Returns (copying samplePair) (do
    Action.tryResult (← Action.ask (.blobs "b" (.put samplePair.target d {})))
    Action.tryResult (← Action.ask (.blobs "b" (.stat samplePair.target)))) w t {}
      { w with target := some d } := by
  apply possible_blobs "b" (.put samplePair.target d {}) () { w with target := some d }
    ⟨rfl, rfl, rfl⟩
  have hcall : copying samplePair { w with target := some d } (.blobs "b" (.stat samplePair.target))
      (.ok {}) { w with target := some d } := ⟨_, .stays, nofun, rfl⟩
  exact ⟨_, Action.returns_call_bind.mpr
    ⟨_, _, [], hcall, rfl, returns_tryResult.mpr ⟨rfl, rfl, rfl⟩⟩⟩

end Possible

end Sample

end FileService.Safety
