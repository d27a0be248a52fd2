import FileService.Postgres.LeaderFlag

/-!
# Outlines of the methods of an instance

The flag is set only while a live session of the instance holds the lock. With
careful failures no session holds the lock without the flag between two calls.
-/
namespace FileService.Postgres
open FileService.Common FileService.Interaction

/-! ## Assertions about one instance -/

section Assertions
variable {ι : Type} [DecidableEq ι] {lockKey : String} {careful : Bool} {i : ι}

/-- The statement on the lock fails. -/
def failsOnLock : (op : ElectionCall) → op.Reply → Bool
  | .execTryLock, .error _ => true
  | .execUnlock, .error _ => true
  | _, _ => false

/-- A session in which a statement on the lock fails does not hold the lock after it. -/
def Careful (i : ι) (_ : Cluster ι) (op : ElectionCall) (r : op.Reply) (σ' : Cluster ι) : Prop :=
  failsOnLock op r = true → (σ'.view i).held = none

/-- The cluster, where `careful` asks for careful failures. -/
def clusterWhere (ι : Type) [DecidableEq ι] (lockKey : String) (careful : Bool) :
    Component ι election (Cluster ι) Method Method.Answer :=
  (cluster lockKey ι).restrict fun i σ op r σ' => careful = true → Careful i σ op r σ'

/-- The leader's live session holds the lock; with careful failures no session takes it twice. -/
structure Agrees (careful : Bool) (v : View) : Prop where
  holds : v.member.leader = true → v.live = true → v.held.isSome = true
  once : careful = true → ∀ again, v.held = some again → again = 0

structure Inv (careful : Bool) (σ : Cluster ι) : Prop where
  wellFormed : WellFormed σ
  agrees : ∀ i, Agrees careful (σ.view i)

/-- What a caller knows of its own instance. -/
abbrev Knowledge (ι : Type) := List (Cluster ι) → View → Prop

def onView (i : ι) (P : Knowledge ι) : Component.Assertion (Cluster ι) :=
  fun seen σ => P seen (σ.view i)

/-- Without the flag the session does not hold the lock. -/
def Calm (careful : Bool) (v : View) : Prop :=
  careful = true → v.member.leader = false → v.held = none

def Quiet (careful : Bool) (v : View) : Prop :=
  v.member.leader = false ∧ (careful = true → v.held = none)

/-- The session was seen to hold the lock. -/
def SeenHolding (i : ι) (seen : List (Cluster ι)) (v : View) : Prop :=
  ∃ σ ∈ seen, (σ.members i).connection = v.member.connection ∧ (σ.view i).held.isSome = true

theorem agrees_dead {v : View} : Agrees careful v.dead := by
  constructor <;> simp [View.dead]

theorem exec_view {op : ElectionCall} {r : op.Reply} {j : ι} {σ σ' : Cluster ι} (hj : j ≠ i)
    (hinv : Inv careful σ) (hexec : (clusterWhere ι lockKey careful).exec j σ op r σ') :
    σ'.view i = σ.view i :=
  (exec_own hinv.wellFormed hexec.1).2.2 i (Ne.symm hj)

omit [DecidableEq ι] in
theorem env_effect {σ σ' : Cluster ι} (hwf : WellFormed σ) (h : Disturbs σ σ') :
    WellFormed σ' ∧ ∀ i, σ'.view i = σ.view i ∨ σ'.view i = (σ.view i).dead := by
  cases h with
  | dies t =>
    obtain ⟨hwf', hviews⟩ := finish_effect hwf t
    refine ⟨hwf', fun i => ?_⟩
    rw [hviews]
    by_cases ht : (σ.members i).connection = some t
    · rw [if_pos ht]
      exact .inr rfl
    · rw [if_neg ht]
      exact .inl rfl
  | passes now hnow => exact ⟨⟨hwf.distinct, hwf.known, hwf.alive, hwf.holder⟩, fun i => .inl rfl⟩

/-- What stays known when the session dies is not broken by anyone else. -/
theorem stable_onView {P : Knowledge ι} (hdead : ∀ seen v, P seen v → P seen v.dead) :
    (clusterWhere ι lockKey careful).Stable (Inv careful) i (onView i P) where
  others := by
    intro j σ op r σ' seen hj hinv hexec hP
    rw [onView, exec_view hj hinv hexec]
    exact hP
  env := by
    intro σ σ' seen hinv henv hP
    rcases (env_effect hinv.wellFormed henv).2 i with hview | hview
    · rw [onView, hview]
      exact hP
    · rw [onView, hview]
      exact hdead seen _ hP

/-- The rule of an operation of the instance. -/
theorem outlines_own {α : Type} {op : ElectionCall} {next : op.Reply → Program election α}
    {P : Knowledge ι} {Q : α → Knowledge ι} (R : op.Reply → Knowledge ι)
    (hdead : ∀ r seen v, R r seen v → R r seen v.dead)
    (hstep : ∀ seen v r v' σ', P seen v → Agrees careful v → Own v op r v' →
      (careful = true → failsOnLock op r = true → v'.held = none) → σ'.view i = v' →
        Agrees careful v' ∧ R r (σ' :: seen) v')
    (hnext : ∀ r, (clusterWhere ι lockKey careful).Outlines (Inv careful) i (next r)
      (onView i (R r)) fun a => onView i (Q a)) :
    (clusterWhere ι lockKey careful).Outlines (Inv careful) i (ask op >>= next) (onView i P)
      fun a => onView i (Q a) := by
  refine Component.outlines_call (fun r => onView i (R r)) (fun r => stable_onView (hdead r)) ?_ hnext
  intro seen σ r σ' hinv hP hexec
  obtain ⟨hwf, hown, hothers⟩ := exec_own hinv.wellFormed hexec.1
  obtain ⟨hagrees, hR⟩ := hstep seen _ r _ σ' hP (hinv.agrees i) hown hexec.2 rfl
  refine ⟨⟨hwf, fun j => ?_⟩, hR⟩
  by_cases hj : j = i
  · subst hj
    exact hagrees
  · rw [hothers j hj]
    exact hinv.agrees j

theorem outlines_return {α : Type} {a : α} {P : Knowledge ι} {Q : α → Knowledge ι}
    (h : ∀ seen v, P seen v → Q a seen v) :
    (clusterWhere ι lockKey careful).Outlines (Inv careful) i (pure a) (onView i P)
      fun a => onView i (Q a) :=
  Component.outlines_pure fun seen _ _ hP => h seen _ hP

end Assertions

/-! ## The methods -/

section Methods
variable {ι : Type} [DecidableEq ι] {lockKey : String} {careful : Bool} {i : ι}

theorem quiet_dead {v : View} (h : Quiet careful v) : Quiet careful v.dead :=
  ⟨h.1, fun _ => rfl⟩

omit [DecidableEq ι] in
theorem seenHolding_dead {seen : List (Cluster ι)} {v : View} (h : SeenHolding i seen v) :
    SeenHolding i seen v.dead := h

theorem calm_dead {v : View} : Calm careful v.dead := fun _ _ => rfl

theorem calm_of_quiet {v : View} (h : Quiet careful v) : Calm careful v := fun hcareful _ =>
  h.2 hcareful

theorem agrees_of_quiet {v : View} (h : Quiet careful v) : Agrees careful v := by
  constructor
  · simp [h.1]
  · intro hcareful again hheld
    rw [h.2 hcareful] at hheld
    cases hheld

/-- After the lock was granted and before the flag is set. -/
def Granted (i : ι) (seen : List (Cluster ι)) (v : View) : Prop :=
  SeenHolding i seen v ∧ (v.live = true → v.held.isSome = true)

/-- What is known when the statement has answered. -/
def Answered (careful : Bool) (i : ι) (r : Result Rows) (seen : List (Cluster ι)) (v : View) :
    Prop :=
  r = .ok ["t"] ∧ Granted i seen v ∨ (∀ rows, r = .ok rows → rows = ["f"]) ∧ Quiet careful v

omit [DecidableEq ι] in
theorem seenHolding_cons {seen : List (Cluster ι)} {σ : Cluster ι} {v v' : View}
    (h : SeenHolding i seen v) (hsame : v'.member.connection = v.member.connection) :
    SeenHolding i (σ :: seen) v' := by
  obtain ⟨σ₀, hmem, hconnection, hheld⟩ := h
  exact ⟨σ₀, List.mem_cons_of_mem _ hmem, hconnection.trans hsame.symm, hheld⟩

omit [DecidableEq ι] in
theorem answered_of_own {seen : List (Cluster ι)} {v : View} {r : Result Rows} {v' : View}
    {σ' : Cluster ι} (hquiet : Quiet careful v) (hown : Own v .execTryLock r v')
    (hclean : careful = true → failsOnLock .execTryLock r = true → v'.held = none)
    (hview : σ'.view i = v') : Agrees careful v' ∧ Answered careful i r (σ' :: seen) v' := by
  cases r with
  | error e =>
    have hleader : v'.member.leader = false := by
      rcases hown with rfl | rfl <;> exact hquiet.1
    have hquiet' : Quiet careful v' := ⟨hleader, fun hcareful => hclean hcareful rfl⟩
    exact ⟨agrees_of_quiet hquiet', .inr ⟨by simp, hquiet'⟩⟩
  | ok rows =>
    rcases hown with ⟨rfl, rfl⟩ | ⟨rfl, hnone, rfl⟩
    · refine ⟨⟨?_, ?_⟩, .inl ⟨rfl, ⟨σ', List.mem_cons_self, ?_, ?_⟩, fun _ => rfl⟩⟩
      · simp [View.locked, hquiet.1]
      · intro hcareful again hagain
        simp only [View.locked, hquiet.2 hcareful, Option.elim_none, Option.some.injEq] at hagain
        exact hagain.symm
      · have hmember : (σ'.view i).member = v.locked.member := by rw [hview]
        exact congrArg PgLeaderElection.connection hmember
      · rw [hview]
        rfl
    · exact ⟨agrees_of_quiet hquiet, .inr ⟨by simp, hquiet⟩⟩

/-- Taking the lock: the caller has seen its session hold it when the answer is yes. -/
theorem outlines_tryAcquire :
    (clusterWhere ι lockKey careful).Outlines (Inv careful) i (tryAcquire lockKey)
      (onView i fun _ => Quiet careful)
      fun r => onView i fun seen v => Calm careful v ∧ (r = .ok true → SeenHolding i seen v) := by
  apply outlines_own fun _ _ => Quiet careful
  · intro r seen v hquiet
    exact quiet_dead hquiet
  · rintro seen v r v' σ' hquiet hagrees ⟨-, rfl⟩ -  -
    exact ⟨hagrees, hquiet⟩
  intro connected
  cases connected with
  | false =>
    apply outlines_own fun _ _ => Quiet careful
    · intro r seen v hquiet
      exact quiet_dead hquiet
    · rintro seen v r v' σ' hquiet hagrees rfl -  -
      exact ⟨hagrees, hquiet⟩
    intro lastError
    apply outlines_return
    intro seen v hquiet
    exact ⟨calm_of_quiet hquiet, by simp⟩
  | true =>
    apply outlines_own (Answered careful i)
    · rintro r seen v (⟨hgranted, hseen, -⟩ | ⟨hrefused, hquiet⟩)
      · exact .inl ⟨hgranted, hseen, by simp [View.dead]⟩
      · exact .inr ⟨hrefused, quiet_dead hquiet⟩
    · intro seen v r v' σ' hquiet hagrees hown hclean hview
      exact answered_of_own hquiet hown hclean hview
    intro r
    cases r with
    | error e =>
      apply outlines_own fun _ _ => Quiet careful
      · intro r seen v hquiet
        exact quiet_dead hquiet
      · rintro seen v r v' σ' (⟨hgranted, -⟩ | ⟨-, hquiet⟩) hagrees rfl - -
        · cases hgranted
        · exact ⟨agrees_of_quiet hquiet, hquiet⟩
      intro _
      apply outlines_return
      intro seen v hquiet
      exact ⟨calm_of_quiet hquiet, by simp⟩
    | ok rows =>
      cases rows with
      | nil =>
        apply outlines_return
        rintro seen v (⟨hgranted, -⟩ | ⟨hrefused, -⟩)
        · simp at hgranted
        · cases hrefused [] rfl
      | cons value rest =>
        apply outlines_own fun _ seen v => Calm careful v ∧
          (v.member.leader = true → SeenHolding i seen v)
        · rintro r seen v ⟨-, hseen⟩
          exact ⟨calm_dead, fun hleader => seenHolding_dead (hseen hleader)⟩
        · rintro seen v r v' σ' (⟨hgranted, ⟨hseen, hholds⟩⟩ | ⟨hrefused, hquiet⟩) hagrees rfl - -
          · obtain ⟨rfl, rfl⟩ := List.cons.inj (Except.ok.inj hgranted)
            refine ⟨⟨fun _ => hholds, hagrees.once⟩, ?_, fun _ => seenHolding_cons hseen rfl⟩
            intro _ hleader
            cases hleader
          · obtain ⟨rfl, rfl⟩ := List.cons.inj (hrefused _ rfl)
            exact ⟨agrees_of_quiet ⟨rfl, hquiet.2⟩, calm_of_quiet ⟨rfl, hquiet.2⟩, by simp⟩
        intro _
        apply outlines_own fun r seen v => Calm careful v ∧ (r = true → SeenHolding i seen v)
        · rintro r seen v ⟨-, hseen⟩
          exact ⟨calm_dead, fun hr => seenHolding_dead (hseen hr)⟩
        · rintro seen v r v' σ' ⟨hcalm, hseen⟩ hagrees ⟨rfl, rfl⟩ - -
          exact ⟨hagrees, hcalm, fun hleader => seenHolding_cons (hseen hleader) rfl⟩
        intro leader
        apply outlines_return
        rintro seen v ⟨hcalm, hseen⟩
        exact ⟨hcalm, fun hr => hseen (Except.ok.inj hr)⟩

/-- The flag is cleared. -/
theorem agrees_cleared {v : View} (h : Agrees careful v) :
    Agrees careful { v with member := { v.member with leader := false } } :=
  ⟨by simp, h.once⟩

theorem quiet_of_unlock {v v' : View} {r : Result Unit} (hleader : v.member.leader = false)
    (hagrees : Agrees careful v) (hown : Own v .execUnlock r v')
    (hclean : careful = true → failsOnLock .execUnlock r = true → v'.held = none) :
    Quiet careful v' := by
  cases r with
  | ok _ =>
    obtain rfl : v' = v.unlocked := hown
    refine ⟨hleader, fun hcareful => ?_⟩
    cases hheld : v.held with
    | none => simp [View.unlocked, hheld]
    | some again =>
      obtain rfl := hagrees.once hcareful again hheld
      simp [View.unlocked, hheld]
  | error e =>
    have hkept : v'.member.leader = false := by
      rcases hown with rfl | rfl <;> exact hleader
    exact ⟨hkept, fun hcareful => hclean hcareful rfl⟩

/-- Giving the lock up: with careful failures a success leaves the session without it. -/
theorem outlines_release :
    (clusterWhere ι lockKey careful).Outlines (Inv careful) i release
      (onView i fun _ => Calm careful)
      fun r => onView i fun _ v => Calm careful v ∧
        (r = .ok () → careful = true → v.held = none) := by
  apply outlines_own fun r _ v => Calm careful v ∧ (r = false → v.held = none)
  · rintro r seen v -
    exact ⟨calm_dead, fun _ => rfl⟩
  · rintro seen v r v' σ' hcalm hagrees ⟨hnone, rfl⟩ - -
    exact ⟨hagrees, hcalm, hnone⟩
  intro connected
  cases connected with
  | false =>
    apply outlines_own fun _ _ v => v.held = none
    · intro r seen v _
      rfl
    · rintro seen v r v' σ' ⟨-, hnone⟩ hagrees rfl - -
      exact ⟨agrees_cleared hagrees, hnone rfl⟩
    intro _
    apply outlines_return
    intro seen v hnone
    exact ⟨fun _ _ => hnone, fun _ _ => hnone⟩
  | true =>
    apply outlines_own fun _ _ v => v.member.leader = false
    · intro r seen v hleader
      exact hleader
    · rintro seen v r v' σ' - hagrees rfl - -
      exact ⟨agrees_cleared hagrees, rfl⟩
    intro _
    apply outlines_own fun _ _ => Quiet careful
    · intro r seen v hquiet
      exact quiet_dead hquiet
    · intro seen v r v' σ' hleader hagrees hown hclean _
      have hquiet : Quiet careful v' := quiet_of_unlock hleader hagrees hown hclean
      exact ⟨agrees_of_quiet hquiet, hquiet⟩
    intro r
    cases r with
    | ok _ =>
      apply outlines_return
      intro seen v hquiet
      exact ⟨calm_of_quiet hquiet, fun _ => hquiet.2⟩
    | error e =>
      apply outlines_own fun _ _ => Quiet careful
      · intro r seen v hquiet
        exact quiet_dead hquiet
      · rintro seen v r v' σ' hquiet hagrees rfl - -
        exact ⟨agrees_of_quiet hquiet, hquiet⟩
      intro _
      apply outlines_return
      intro seen v hquiet
      exact ⟨calm_of_quiet hquiet, by simp⟩

/-- An operation that neither moves the flag nor touches the session. -/
def isHarmless : ElectionCall → Bool
  | .hasConnection => true
  | .healthy => true
  | .connectionError => true
  | .leader => true
  | .lastError => true
  | .setLastError _ => true
  | .now => true
  | .nextConnectAttempt => true
  | .setNextConnectAttempt _ => true
  | _ => false

theorem own_harmless {op : ElectionCall} {r : op.Reply} {v v' : View} (hop : isHarmless op = true)
    (hown : Own v op r v') :
    v'.member.leader = v.member.leader ∧ v'.live = v.live ∧ v'.held = v.held := by
  cases op <;> first | contradiction | (simp only [Own] at hown; simp [hown])

/-- What depends on the flag and the session only is kept by a harmless operation. -/
theorem outlines_harmless {α : Type} {op : ElectionCall} {next : op.Reply → Program election α}
    {P : Bool → Option Nat → Prop} {Q : α → Knowledge ι} (hop : isHarmless op = true)
    (hdead : ∀ leader held, P leader held → P leader none)
    (hnext : ∀ r, (clusterWhere ι lockKey careful).Outlines (Inv careful) i (next r)
      (onView i fun _ v => P v.member.leader v.held) fun a => onView i (Q a)) :
    (clusterWhere ι lockKey careful).Outlines (Inv careful) i (ask op >>= next)
      (onView i fun _ v => P v.member.leader v.held) fun a => onView i (Q a) := by
  apply outlines_own fun _ _ v => P v.member.leader v.held
  · intro r seen v hP
    exact hdead _ _ hP
  · intro seen v r v' σ' hP hagrees hown _ _
    obtain ⟨hleader, hlive, hheld⟩ := own_harmless hop hown
    refine ⟨⟨?_, ?_⟩, ?_⟩
    · rw [hleader, hlive, hheld]
      exact hagrees.holds
    · rw [hheld]
      exact hagrees.once
    · rw [hleader, hheld]
      exact hP
  · exact hnext

theorem outlines_reset {α : Type} {next : Unit → Program election α} {P : Knowledge ι}
    {Q : α → Knowledge ι}
    (hnext : (clusterWhere ι lockKey careful).Outlines (Inv careful) i (next ())
      (onView i fun _ v => v.held = none ∧ v.live = false) fun a => onView i (Q a)) :
    (clusterWhere ι lockKey careful).Outlines (Inv careful) i (ask .reset >>= next) (onView i P)
      fun a => onView i (Q a) := by
  apply outlines_own fun _ _ v => v.held = none ∧ v.live = false
  · intro r seen v _
    exact ⟨rfl, rfl⟩
  · rintro seen v r v' σ' - hagrees rfl - -
    exact ⟨⟨by simp, by simp⟩, rfl, rfl⟩
  · intro _
    exact hnext

/-- The old session is dropped, and a new one does not hold the lock. -/
theorem outlines_ensureConnection :
    (clusterWhere ι lockKey careful).Outlines (Inv careful) i ensureConnection
      (onView i fun _ => Calm careful) fun _ => onView i fun _ => Calm careful := by
  have hdead : ∀ (leader : Bool) (held : Option Nat),
      (careful = true → leader = false → held = none) →
        careful = true → leader = false → (none : Option Nat) = none := fun _ _ _ _ _ => rfl
  have hconnected : (clusterWhere ι lockKey careful).Outlines (Inv careful) i connected
      (onView i fun _ => Calm careful) fun _ => onView i fun _ => Calm careful := by
    apply outlines_harmless rfl hdead
    intro found
    cases found with
    | true =>
      apply outlines_harmless rfl hdead
      intro healthy
      apply outlines_return
      intro seen v hcalm
      exact hcalm
    | false =>
      apply outlines_return
      intro seen v hcalm
      exact hcalm
  apply hconnected.bind
  intro ready
  cases ready with
  | true =>
    apply outlines_return
    intro seen v hcalm
    exact hcalm
  | false =>
    apply outlines_harmless rfl hdead
    intro now
    apply outlines_harmless rfl hdead
    intro nextAttempt
    by_cases hcooling : now < nextAttempt
    · rw [if_pos hcooling]
      apply outlines_return
      intro seen v hcalm
      exact hcalm
    · rw [if_neg hcooling]
      apply outlines_harmless rfl hdead
      intro _
      apply outlines_reset
      apply outlines_own fun _ _ v => v.member.leader = false ∧ v.held = none
      · rintro r seen v ⟨hleader, -⟩
        exact ⟨hleader, rfl⟩
      · rintro seen v r v' σ' ⟨hnone, -⟩ hagrees rfl - -
        exact ⟨agrees_cleared hagrees, rfl, hnone⟩
      intro _
      apply outlines_own fun _ _ v => v.member.leader = false ∧ v.held = none
      · rintro r seen v ⟨hleader, -⟩
        exact ⟨hleader, rfl⟩
      · intro seen v r v' σ' hfresh hagrees hown _ _
        have hfresh' : v'.member.leader = false ∧ v'.held = none := by
          cases r with
          | ok _ =>
            obtain ⟨t, rfl⟩ := hown
            exact ⟨hfresh.1, rfl⟩
          | error e => exact hown ▸ hfresh
        exact ⟨agrees_of_quiet ⟨hfresh'.1, fun _ => hfresh'.2⟩, hfresh'⟩
      intro r
      cases r with
      | error e =>
        apply outlines_harmless (P := fun leader held => leader = false ∧ held = none) rfl
        · rintro leader held ⟨hleader, -⟩
          exact ⟨hleader, rfl⟩
        intro _
        apply outlines_return
        rintro seen v ⟨-, hnone⟩
        exact fun _ _ => hnone
      | ok _ =>
        apply outlines_harmless (P := fun leader held => leader = false ∧ held = none) rfl
        · rintro leader held ⟨hleader, -⟩
          exact ⟨hleader, rfl⟩
        intro _
        apply outlines_return
        rintro seen v ⟨-, hnone⟩
        exact fun _ _ => hnone

/-- The session is dropped and the flag cleared. -/
theorem outlines_stepDown {message : String} {P : Knowledge ι} (hP : ∀ seen v, P seen v →
      v.member.leader = true) :
    (clusterWhere ι lockKey careful).Outlines (Inv careful) i (stepDown message) (onView i P)
      fun r => onView i fun _ v => Calm careful v ∧ r = false := by
  have hstart : (clusterWhere ι lockKey careful).Outlines (Inv careful) i (stepDown message)
      (onView i fun _ v => v.member.leader = true)
      fun r => onView i fun _ v => Calm careful v ∧ r = false := by
    apply outlines_harmless (P := fun leader _ => leader = true) rfl
    · intro leader held hleader
      exact hleader
    intro _
    apply outlines_reset
    apply outlines_own fun _ _ v => v.held = none
    · intro r seen v _
      rfl
    · rintro seen v r v' σ' ⟨hnone, -⟩ hagrees rfl - -
      exact ⟨agrees_cleared hagrees, hnone⟩
    intro _
    apply outlines_return
    intro seen v hnone
    exact ⟨fun _ _ => hnone, rfl⟩
  exact hstart.weaken fun seen σ _ hseen => hP seen _ hseen

/-- A leader probes its session, and steps down when the session is lost. -/
theorem outlines_probe :
    (clusterWhere ι lockKey careful).Outlines (Inv careful) i
      (do
        if !(← ask .healthy) then stepDown (← ask .connectionError)
        else
          match ← ask .ping with
          | .error e => stepDown e.message
          | .ok _ => return true)
      (onView i fun _ v => v.member.leader = true)
      fun r => onView i fun seen v => Calm careful v ∧ (r = true → SeenHolding i seen v) := by
  apply outlines_harmless (P := fun leader _ => leader = true) rfl
  · intro leader held hleader
    exact hleader
  intro healthy
  cases healthy with
  | false =>
    apply outlines_harmless (P := fun leader _ => leader = true) rfl
    · intro leader held hleader
      exact hleader
    intro message
    refine (outlines_stepDown fun seen v hleader => hleader).strengthen ?_
    rintro r seen σ - ⟨hcalm, rfl⟩
    exact ⟨hcalm, by simp⟩
  | true =>
    apply outlines_own fun (r : Result Unit) seen v => v.member.leader = true ∧
      (r = .ok () → SeenHolding i seen v)
    · rintro r seen v ⟨hleader, hseen⟩
      exact ⟨hleader, fun hr => seenHolding_dead (hseen hr)⟩
    · intro seen v r v' σ' hleader hagrees hown _ hview
      cases r with
      | error e =>
        obtain rfl : v' = v := hown
        exact ⟨hagrees, hleader, by simp⟩
      | ok _ =>
        obtain ⟨hlive, rfl⟩ := hown
        refine ⟨hagrees, hleader, fun _ => ⟨σ', List.mem_cons_self, ?_, ?_⟩⟩
        · rw [← hview]
          rfl
        · rw [hview]
          exact hagrees.holds hleader hlive
    intro r
    cases r with
    | error e =>
      refine (outlines_stepDown fun seen v hleader => hleader.1).strengthen ?_
      rintro r seen σ - ⟨hcalm, rfl⟩
      exact ⟨hcalm, by simp⟩
    | ok _ =>
      apply outlines_return
      rintro seen v ⟨hleader, hseen⟩
      refine ⟨fun _ hnot => ?_, fun _ => hseen rfl⟩
      rw [hleader] at hnot
      cases hnot

/-- An instance that says it is the leader has seen its session hold the lock. -/
theorem outlines_isLeader :
    (clusterWhere ι lockKey careful).Outlines (Inv careful) i (isLeader lockKey)
      (onView i fun _ => Calm careful)
      fun r => onView i fun seen v => Calm careful v ∧ (r = true → SeenHolding i seen v) := by
  apply outlines_ensureConnection.bind
  intro ready
  cases ready with
  | false =>
    apply outlines_return
    intro seen v hcalm
    exact ⟨hcalm, by simp⟩
  | true =>
    apply outlines_own fun leader _ v => v.member.leader = leader ∧ Calm careful v
    · rintro leader seen v ⟨hleader, -⟩
      exact ⟨hleader, calm_dead⟩
    · rintro seen v r v' σ' hcalm hagrees ⟨rfl, rfl⟩ - -
      exact ⟨hagrees, rfl, hcalm⟩
    intro leader
    cases leader with
    | false =>
      have hacquire := @outlines_tryAcquire ι _ lockKey careful i
      refine (hacquire.weaken ?_).bind fun r => ?_
      · rintro seen σ - ⟨hleader, hcalm⟩
        exact ⟨hleader, fun hcareful => hcalm hcareful hleader⟩
      cases r with
      | error e =>
        have hfails : (clusterWhere ι lockKey careful).Outlines (Inv careful) i
            (ask (.setLastError e.message) >>= fun _ => pure false) (onView i fun _ => Calm careful)
            fun r => onView i fun seen v => Calm careful v ∧ (r = true → SeenHolding i seen v) := by
          apply outlines_harmless (P := fun leader held =>
            careful = true → leader = false → held = none) rfl
          · intro leader held _ _ _
            rfl
          intro _
          apply outlines_return
          intro seen v hcalm
          exact ⟨hcalm, by simp⟩
        exact hfails.weaken fun seen σ _ hcalm => hcalm.1
      | ok acquired =>
        apply outlines_return
        rintro seen v ⟨hcalm, hseen⟩
        exact ⟨hcalm, fun hacquired => hseen (congrArg _ hacquired)⟩
    | true =>
      exact outlines_probe.weaken fun seen σ _ hpre => hpre.1

/-- A session that was just opened does not hold the lock. -/
theorem outlines_openElection :
    (clusterWhere ι lockKey careful).Outlines (Inv careful) i openElection
      (onView i fun _ => Quiet careful) fun _ => onView i fun _ => Calm careful := by
  apply outlines_own fun _ _ => Quiet careful
  · intro r seen v hquiet
    exact quiet_dead hquiet
  · intro seen v r v' σ' hquiet hagrees hown _ _
    have hquiet' : Quiet careful v' := by
      cases r with
      | ok _ =>
        obtain ⟨t, rfl⟩ := hown
        exact ⟨hquiet.1, fun _ => rfl⟩
      | error e => exact hown ▸ hquiet
    exact ⟨agrees_of_quiet hquiet', hquiet'⟩
  intro r
  cases r with
  | error e =>
    apply outlines_return
    intro seen v hquiet
    exact calm_of_quiet hquiet
  | ok _ =>
    apply outlines_return
    intro seen v hquiet
    exact calm_of_quiet hquiet

end Methods

end FileService.Postgres
