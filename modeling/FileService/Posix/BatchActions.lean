import FileService.Posix.JoinBatch

/-!
# The actions of a put

Every action of a put takes one batch one stage further or none, and leaves the
other puts where they are, apart from waking them. So the others stay where the
stages let them, and only the put itself and its batch are to be looked at.
-/
namespace FileService.Posix
open FileService.Common FileService.Domain FileService.Interaction

/-! ## What one put does to the others -/

section Acts
variable {ι : Type} {s s' s'' : BatchState ι} {i j : ι} {b k : Nat}

/-- The put may wake the others and take its own batches further. -/
structure Acted (i : ι) (s s' : BatchState ι) : Prop where
  seat : ∀ x, (s.point i).seat = some x → (s'.point i).seat = some x
  point : ∀ j ≠ i, s'.point j = s.point j ∨ s'.point j = (s.point j).woken
  woken : ∀ j ≠ i, ∀ b k, (s.stage b).isTold = false → (s'.stage b).isTold = true →
    s'.point j ≠ .waits b k true
  stage : ∀ b, Stage.Goes i (s.stage b) (s'.stage b)
  members : ∀ b, (s.stage b).isSealed = true → s'.members b = s.members b
  results : ∀ b, (s.stage b).isTold = true → (s'.batches b).results = (s.batches b).results
  lock : ∀ c ≠ i, s'.commitLock = some c ↔ s.commitLock = some c

@[simp] theorem Point.woken_woken (p : Point ι) : p.woken.woken = p.woken := by
  cases p <;> rfl

theorem Point.woken_ne_asleep (p : Point ι) : p.woken ≠ .waits b k true := by
  cases p <;> simp [Point.woken]

/-- Puts move, and the batches and the lock stay as they are. -/
theorem acted_of_points {point : ι → Point ι}
    (hseat : ∀ x, (s.point i).seat = some x → (point i).seat = some x)
    (hpoint : ∀ j ≠ i, point j = s.point j ∨ point j = (s.point j).woken) :
    Acted i s { s with point } := by
  constructor
  · exact hseat
  · exact hpoint
  · intro j _ b k hs hs'
    exact absurd hs' (Bool.eq_false_iff.mp hs)
  · exact fun _ => .refl
  · exact fun _ _ => rfl
  · exact fun _ _ => rfl
  · exact fun _ _ => Iff.rfl

theorem Acted.refl (i : ι) (s : BatchState ι) : Acted i s s :=
  acted_of_points (fun _ hx => hx) fun _ _ => .inl rfl

theorem Acted.trans (h : Acted i s s') (h' : Acted i s' s'') : Acted i s s'' := by
  constructor
  · exact fun x hx => h'.seat x (h.seat x hx)
  · intro j hj
    rcases h.point j hj with hp | hp <;> rcases h'.point j hj with hp' | hp' <;>
      simp [hp, hp']
  · intro j hj b k hs hs''
    by_cases hs' : (s'.stage b).isTold = true
    · have hawake := h.woken j hj b k hs hs'
      rcases h'.point j hj with hp' | hp'
      · rwa [hp']
      · rw [hp']
        exact Point.woken_ne_asleep _
    · exact h'.woken j hj b k (Bool.not_eq_true _ ▸ hs') hs''
  · intro b
    exact (h.stage b).trans (h'.stage b)
  · intro b hb
    rw [h'.members b ((h.stage b).isSealed hb), h.members b hb]
  · intro b hb
    have hsame := (h.stage b).isTold hb
    rw [h'.results b (hsame ▸ hb), h.results b hb]
  · intro c hc
    rw [h'.lock c hc, h.lock c hc]

/-- Every put keeps its seat. -/
theorem Acted.seats (h : Acted i s s') {x : Nat × Nat} (hj : (s.point j).seat = some x) :
    (s'.point j).seat = some x := by
  by_cases hji : j = i
  · subst hji
    exact h.seat x hj
  · rcases h.point j hji with hp | hp
    · rw [hp, hj]
    · rw [hp, Point.seat_woken, hj]

theorem placed_woken {p : Point ι} (h : Placed s j p) : Placed s j p.woken := by
  cases p with
  | waits b k asleep => exact ⟨by simp, h.2⟩
  | _ => exact h

/-- Another put stays where the stage of its batch lets it. -/
theorem Acted.placed (h : Acted i s s') (hj : j ≠ i) (hplaced : Placed s j (s.point j)) :
    Placed s' j (s'.point j) := by
  have hwoken := h.woken j hj
  have hp : Placed s j (s'.point j) := by
    rcases h.point j hj with hp | hp <;> rw [hp]
    · exact hplaced
    · exact placed_woken hplaced
  generalize s'.point j = p at hp hwoken
  cases p with
  | outside => trivial
  | enters b k => trivial
  | leads b asleep => trivial
  | waits b k asleep =>
    obtain ⟨hasleep, hfirst⟩ := hp
    constructor
    · rintro rfl
      by_contra htold
      exact hwoken b k (hasleep rfl) (Bool.not_eq_false _ ▸ htold) rfl
    · exact fun hk => (h.stage b).isSealed (hfirst hk)
  | commits b k committed =>
    obtain ⟨hstage, rfl⟩ := hp
    have hsame := (h.stage b).committer hj (by simp [hstage])
    exact ⟨hsame.trans hstage, (h.members b (by simp [hstage])).symm⟩
  | committing b k committed =>
    obtain ⟨hstage, rfl, hlock⟩ := hp
    have hsame := (h.stage b).committer hj (by simp [hstage])
    exact ⟨hsame.trans hstage, (h.members b (by simp [hstage])).symm, (h.lock j hj).mpr hlock⟩
  | tells b k =>
    have hstage : s.stage b = .ended j := hp
    exact ((h.stage b).committer hj (by simp [hstage])).trans hstage
  | returned b k r =>
    obtain ⟨htold, hresult⟩ := hp
    have hsame := (h.stage b).isTold htold
    exact ⟨hsame ▸ htold, (h.results b htold).symm ▸ hresult⟩

/-- The committer of a batch stays at its point while others act. -/
theorem Acted.attended (h : Acted i s s') (hb : (s'.stage b).committer ≠ some i)
    (hattended : Attended s b (s.stage b)) : Attended s' b (s'.stage b) := by
  cases hc : (s'.stage b).committer with
  | none =>
    cases hstage : s'.stage b <;> rw [hstage] at hc
    case gathering => trivial
    case told => trivial
    all_goals cases hc
  | some c =>
    have hci : c ≠ i := by
      rintro rfl
      exact hb hc
    have hsame := (h.stage b).committed hci hc
    have hsealed : (s.stage b).isSealed = true := by
      rw [← hsame]
      cases hstage : s'.stage b <;> simp [hstage] at hc ⊢
    have hpoint : ∀ p : Point ι, p.woken = p → s.point c = p → s'.point c = p := by
      intro p hwoken hp
      rcases h.point c hci with hp' | hp'
      · rw [hp', hp]
      · rw [hp', hp, hwoken]
    rw [hsame] at hc ⊢
    cases hstage : s.stage b with
    | gathering => trivial
    | told _ => trivial
    | taken d =>
      rw [hstage] at hc hattended
      cases hc
      obtain ⟨k, hk⟩ := hattended
      exact ⟨k, hpoint _ rfl (hk.trans (by rw [h.members b hsealed]))⟩
    | begun d =>
      rw [hstage] at hc hattended
      cases hc
      obtain ⟨k, hk⟩ := hattended
      exact ⟨k, hpoint _ rfl (hk.trans (by rw [h.members b hsealed]))⟩
    | ended d =>
      rw [hstage] at hc hattended
      cases hc
      obtain ⟨k, hk⟩ := hattended
      exact ⟨k, hpoint _ rfl hk⟩

/-- What a put does keeps everything in its place if it keeps the put and its batches there. -/
theorem Arranged.acted (hs : Arranged s) (h : Acted i s s') (hplaced : Placed s' i (s'.point i))
    (hattended : ∀ b, (s'.stage b).committer = some i → Attended s' b (s'.stage b))
    (hlock : s'.commitLock = some i → ∃ b k committed, s'.point i = .committing b k committed) :
    Arranged s' := by
  constructor
  · intro j
    by_cases hj : j = i
    · subst hj
      exact hplaced
    · exact h.placed hj (hs.placed j)
  · intro b
    by_cases hb : (s'.stage b).committer = some i
    · exact hattended b hb
    · exact h.attended hb (hs.attended b)
  · intro c hc
    by_cases hci : c = i
    · subst hci
      exact hlock hc
    · obtain ⟨b, k, committed, hp⟩ := hs.lock c ((h.lock c hci).mp hc)
      refine ⟨b, k, committed, ?_⟩
      rcases h.point c hci with hp' | hp' <;> rw [hp', hp]
      rfl

end Acts

/-! ## The actions -/

section Actions
variable {ι : Type} [DecidableEq ι] {s : BatchState ι} {i : ι} {b k : Nat}

@[simp] theorem goes_point (p : Point ι) : (s.goes i p).point i = p := Function.update_self ..

@[simp] theorem take_point : (s.take i b k).point i = .commits b k (s.batches b).entries :=
  Function.update_self ..

@[simp] theorem begin_point (committed : List ι) :
    (s.begin i b k committed).point i = .committing b k committed :=
  Function.update_self ..

@[simp] theorem finish_point (committed : List ι) (results : List (Result Unit)) :
    (s.finish i b k committed results).point i = .tells b k :=
  Function.update_self ..

@[simp] theorem leave_point :
    (s.leave i b k).point i = .returned b k ((s.batches b).results[k]?.getD (.ok ())) :=
  Function.update_self ..

/-- The points of a committer. -/
@[simp] def Point.isCommitter : Point ι → Bool
  | .commits .. => true
  | .committing .. => true
  | .tells .. => true
  | _ => false

omit [DecidableEq ι] in
theorem Arranged.committer (h : Arranged s) (hb : (s.stage b).committer = some i) :
    (s.point i).isCommitter = true ∧ ∃ k, (s.point i).seat = some (b, k) := by
  have hattended := h.attended b
  cases hstage : s.stage b <;> rw [hstage] at hb hattended
  case gathering => cases hb
  case told => cases hb
  all_goals
    cases hb
    obtain ⟨k, hk⟩ := hattended
    rw [hk]
    exact ⟨rfl, k, rfl⟩

omit [DecidableEq ι] in
/-- A put that commits nothing is no committer and does not hold the mutex of the commits. -/
theorem Arranged.free (h : Arranged s) (hi : (s.point i).isCommitter = false) :
    (∀ b, (s.stage b).committer ≠ some i) ∧ s.commitLock ≠ some i := by
  constructor
  · intro b hb
    rw [(h.committer hb).1] at hi
    cases hi
  · intro hlock
    obtain ⟨b, k, committed, hp⟩ := h.lock i hlock
    rw [hp] at hi
    cases hi

theorem acted_goes {p : Point ι} (hp : p.seat = (s.point i).seat) : Acted i s (s.goes i p) := by
  apply acted_of_points
  · intro x hx
    rw [Function.update_self, hp, hx]
  · intro j hj
    exact .inl (Function.update_of_ne hj ..)

theorem Arranged.goes (h : Arranged s) {p : Point ι} (hi : (s.point i).isCommitter = false)
    (hseat : p.seat = (s.point i).seat) (hp : Placed s i p) : Arranged (s.goes i p) := by
  obtain ⟨hfree, hlock⟩ := h.free hi
  apply h.acted (acted_goes hseat)
  · rw [goes_point]
    exact hp
  · exact fun b hb => absurd hb (hfree b)
  · exact fun hb => absurd hb hlock

omit [DecidableEq ι] in
theorem acted_notifyAll : Acted i s s.notifyAll := by
  apply acted_of_points
  · exact fun x hx => (Point.seat_woken _).trans hx
  · exact fun _ _ => .inr rfl

omit [DecidableEq ι] in
theorem Arranged.notifyAll (h : Arranged s) : Arranged s.notifyAll := by
  constructor
  · exact fun j => placed_woken (h.placed j)
  · intro b
    have hattended := h.attended b
    dsimp only [BatchState.notifyAll]
    cases hstage : s.stage b <;> rw [hstage] at hattended
    case gathering => trivial
    case told => trivial
    all_goals
      obtain ⟨k, hk⟩ := hattended
      exact ⟨k, congrArg Point.woken hk⟩
  · intro c hc
    obtain ⟨b, k, committed, hp⟩ := h.lock c hc
    exact ⟨b, k, committed, congrArg Point.woken hp⟩

theorem acted_push (hi : s.point i = .outside) (hb : (s.stage b).isSealed = false) :
    Acted i s (s.push i b) := by
  constructor
  · intro x hx
    rw [hi] at hx
    cases hx
  · intro j hj
    exact .inl (Function.update_of_ne hj ..)
  · intro j _ b k hs hs'
    exact absurd hs' (Bool.eq_false_iff.mp hs)
  · exact fun _ => .refl
  · intro b' hb'
    have hne : b' ≠ b := by
      rintro rfl
      rw [hb] at hb'
      cases hb'
    exact Function.update_of_ne hne ..
  · intro b' _
    dsimp only [BatchState.push]
    by_cases hne : b' = b
    · subst hne
      rw [Function.update_self]
    · rw [Function.update_of_ne hne]
  · exact fun _ _ => Iff.rfl

theorem Arranged.push (h : Arranged s) (hi : s.point i = .outside)
    (hb : (s.stage b).isSealed = false) : Arranged (s.push i b) := by
  obtain ⟨hfree, hlock⟩ := h.free (i := i) (by rw [hi]; rfl)
  apply h.acted (acted_push hi hb)
  · dsimp only [BatchState.push]
    rw [Function.update_self]
    trivial
  · exact fun b hb => absurd hb (hfree b)
  · exact fun hb => absurd hb hlock

omit [DecidableEq ι] in
theorem acted_newBatch (hfresh : (s.stage s.made).isSealed = false) : Acted i s s.newBatch.2 := by
  constructor
  · exact fun _ hx => hx
  · exact fun _ _ => .inl rfl
  · intro j _ b k hs hs'
    exact absurd hs' (Bool.eq_false_iff.mp hs)
  · exact fun _ => .refl
  · exact fun _ _ => rfl
  · intro b hb
    have hne : b ≠ s.made := by
      rintro rfl
      cases hstage : s.stage s.made <;> simp [hstage] at hb hfresh
    exact congrArg Batch.results (Function.update_of_ne hne ..)
  · exact fun _ _ => Iff.rfl

omit [DecidableEq ι] in
theorem Arranged.newBatch (h : Arranged s) (hi : s.point i = .outside)
    (hfresh : (s.stage s.made).isSealed = false) : Arranged s.newBatch.2 := by
  obtain ⟨hfree, hlock⟩ := h.free (i := i) (by rw [hi]; rfl)
  apply h.acted (acted_newBatch (i := i) hfresh)
  · have hpoint : s.newBatch.2.point i = .outside := hi
    rw [hpoint]
    trivial
  · exact fun b hb => absurd hb (hfree b)
  · exact fun hb => absurd hb hlock

/-- An action on one batch. -/
structure TakesFurther (i : ι) (b : Nat) (y : Stage ι) (s s' : BatchState ι) : Prop where
  seat : (s'.point i).seat = (s.point i).seat
  next : Stage.Next i (s.stage b) y
  stage : s'.stage = Function.update s.stage b y
  point : ∀ j ≠ i, s'.point j = if y.isTold then (s.point j).woken else s.point j
  members : s'.members = s.members
  batches : ∀ b' ≠ b, s'.batches b' = s.batches b'
  lock : ∀ c ≠ i, s'.commitLock = some c ↔ s.commitLock = some c

omit [DecidableEq ι] in
theorem TakesFurther.acted {y : Stage ι} {s' : BatchState ι} (h : TakesFurther i b y s s') :
    Acted i s s' := by
  constructor
  · exact fun x hx => h.seat.trans hx
  · intro j hj
    rw [h.point j hj]
    split
    · exact .inr rfl
    · exact .inl rfl
  · intro j hj b' k hs hs'
    rw [h.stage] at hs'
    by_cases hne : b' = b
    · subst hne
      rw [Function.update_self] at hs'
      rw [h.point j hj, if_pos hs']
      exact Point.woken_ne_asleep _
    · rw [Function.update_of_ne hne] at hs'
      exact absurd hs' (Bool.eq_false_iff.mp hs)
  · intro b'
    rw [h.stage]
    by_cases hne : b' = b
    · subst hne
      rw [Function.update_self]
      exact .single h.next
    · rw [Function.update_of_ne hne]
  · exact fun _ _ => congrFun h.members _
  · intro b' hb'
    have hne : b' ≠ b := by
      rintro rfl
      have hnext := h.next
      cases hstage : s.stage b' <;> rw [hstage] at hnext hb' <;> cases hnext <;> cases hb'
    rw [h.batches b' hne]
  · exact h.lock

omit [DecidableEq ι] in
/-- An action on one batch keeps everything in its place if it moves the put to where the new
stage has it. -/
theorem Arranged.further (hs : Arranged s) {y : Stage ι} {s' : BatchState ι}
    (h : TakesFurther i b y s s') (hplaced : Placed s' i (s'.point i))
    (hattended : Attended s' b y) (hmine : ∀ b', (s.stage b').committer = some i → b' = b)
    (hlock : s'.commitLock = some i → ∃ b k committed, s'.point i = .committing b k committed) :
    Arranged s' := by
  apply hs.acted h.acted hplaced _ hlock
  intro b' hb'
  rw [h.stage] at hb' ⊢
  by_cases hne : b' = b
  · subst hne
    rw [Function.update_self]
    exact hattended
  · rw [Function.update_of_ne hne] at hb'
    exact absurd (hmine b' hb') hne

omit [DecidableEq ι] in
/-- A put commits the batch of its seat only. -/
theorem Arranged.mine (h : Arranged s) (hi : (s.point i).seat = some (b, k)) (b' : Nat)
    (hb' : (s.stage b').committer = some i) : b' = b := by
  obtain ⟨-, k', hk'⟩ := h.committer hb'
  rw [hi] at hk'
  simp only [Option.some.injEq, Prod.mk.injEq] at hk'
  exact hk'.1.symm

theorem further_take (hseat : (s.point i).seat = some (b, k)) (hb : s.stage b = .gathering) :
    TakesFurther i b (.taken i) s (s.take i b k) where
  seat := by rw [take_point, hseat]; rfl
  next := hb ▸ .take
  stage := rfl
  point _ hj := Function.update_of_ne hj ..
  members := rfl
  batches _ hne := Function.update_of_ne hne ..
  lock _ _ := Iff.rfl

theorem Arranged.take (h : Arranged s) (hi : (s.point i).isCommitter = false)
    (hseat : (s.point i).seat = some (b, k)) (hb : s.stage b = .gathering)
    (hentries : (s.batches b).entries = s.members b) : Arranged (s.take i b k) := by
  have hpoint := take_point (s := s) (i := i) (b := b) (k := k)
  apply h.further (further_take hseat hb)
  · rw [hpoint]
    exact ⟨Function.update_self .., hentries⟩
  · exact ⟨k, hpoint.trans (by rw [hentries]; rfl)⟩
  · exact h.mine hseat
  · exact fun hlock => absurd hlock (h.free hi).2

theorem further_begin {committed : List ι} (hi : s.point i = .commits b k committed)
    (hb : s.stage b = .taken i) (hlock : s.commitLock = none) :
    TakesFurther i b (.begun i) s (s.begin i b k committed) where
  seat := by rw [begin_point, hi]; rfl
  next := hb ▸ .begin
  stage := rfl
  point _ hj := Function.update_of_ne hj ..
  members := rfl
  batches _ _ := rfl
  lock c hc := by simp [BatchState.begin, hlock, hc.symm]

theorem Arranged.begin {committed : List ι} (h : Arranged s)
    (hi : s.point i = .commits b k committed) (hlock : s.commitLock = none) :
    Arranged (s.begin i b k committed) := by
  have hplaced := h.placed i
  rw [hi] at hplaced
  obtain ⟨hb, hcommitted⟩ := hplaced
  have hpoint := begin_point (s := s) (i := i) (b := b) (k := k) committed
  apply h.further (further_begin hi hb hlock)
  · rw [hpoint]
    exact ⟨Function.update_self .., hcommitted, rfl⟩
  · exact ⟨k, hpoint.trans (by rw [hcommitted]; rfl)⟩
  · apply h.mine (k := k)
    rw [hi]
    rfl
  · exact fun _ => ⟨b, k, committed, hpoint⟩

theorem further_finish {committed : List ι} {results : List (Result Unit)}
    (hi : s.point i = .committing b k committed) (hb : s.stage b = .begun i)
    (hlock : s.commitLock = some i) :
    TakesFurther i b (.ended i) s (s.finish i b k committed results) where
  seat := by rw [finish_point, hi]; rfl
  next := hb ▸ .finish
  stage := rfl
  point _ hj := Function.update_of_ne hj ..
  members := rfl
  batches _ hne := Function.update_of_ne hne ..
  lock c hc := by simp [BatchState.finish, hlock, hc.symm]

theorem Arranged.finish {committed : List ι} {results : List (Result Unit)} (h : Arranged s)
    (hi : s.point i = .committing b k committed) :
    Arranged (s.finish i b k committed results) := by
  have hplaced := h.placed i
  rw [hi] at hplaced
  obtain ⟨hb, -, hlock⟩ := hplaced
  have hpoint := finish_point (s := s) (i := i) (b := b) (k := k) committed results
  apply h.further (further_finish hi hb hlock)
  · rw [hpoint]
    exact Function.update_self ..
  · exact ⟨k, hpoint⟩
  · apply h.mine (k := k)
    rw [hi]
    rfl
  · exact fun hnone => nomatch hnone

theorem leave_eq {r : Result Unit} (hr : (s.batches b).results[k]? = some r) :
    s.leave i b k = s.goes i (.returned b k r) := by
  unfold BatchState.leave
  rw [hr]
  rfl

theorem further_tell (hi : s.point i = .tells b k) (hb : s.stage b = .ended i) :
    TakesFurther i b (.told i) s ((s.tell i b).leave i b k) where
  seat := by rw [leave_point, hi]; rfl
  next := hb ▸ .tell
  stage := rfl
  point _ hj := Function.update_of_ne hj ..
  members := rfl
  batches _ hne := Function.update_of_ne hne ..
  lock _ _ := Iff.rfl

theorem Arranged.tell {r : Result Unit} (h : Arranged s) (hi : s.point i = .tells b k)
    (hr : (s.batches b).results[k]? = some r) : Arranged ((s.tell i b).leave i b k) := by
  have hb : s.stage b = .ended i := by
    have hplaced := h.placed i
    rw [hi] at hplaced
    exact hplaced
  have hr' : ((s.tell i b).batches b).results[k]? = some r := by
    dsimp only [BatchState.tell, BatchState.notifyAll]
    rw [Function.update_self]
    exact hr
  have hpoint : ((s.tell i b).leave i b k).point i = .returned b k r := by
    rw [leave_eq hr', goes_point]
  apply h.further (further_tell hi hb)
  · rw [hpoint]
    have htold : ((s.tell i b).leave i b k).stage b = .told i := Function.update_self ..
    exact ⟨by rw [htold]; rfl, hr'⟩
  · trivial
  · apply h.mine (k := k)
    rw [hi]
    rfl
  · intro hlock
    obtain ⟨b', k', committed, hp⟩ := h.lock i hlock
    rw [hi] at hp
    cases hp

end Actions

end FileService.Posix
