import FileService.Postgres.LeaderOutlines

/-!
# One leader at a time

Every run of any number of instances. That a release gives the lock up needs
more than that there is one leader: a session that holds the lock without the
flag takes it a second time.
-/
namespace FileService.Postgres
open FileService.Common FileService.Interaction

/-! ## Every run -/

section Runs
variable {ι : Type} [DecidableEq ι] {lockKey : String} {careful : Bool}

/-- What a call says by its answer. -/
def Said (careful : Bool) : (m : Method) → ι → m.Answer → Component.Assertion (Cluster ι)
  | .open, _, _ => fun _ _ => True
  | .tryAcquire, i, r => onView i fun seen v => r = .ok true → SeenHolding i seen v
  | .release, i, r => onView i fun _ v => r = .ok () → careful = true → v.held = none
  | .isLeader, i, r => onView i fun seen v => r = true → SeenHolding i seen v

theorem outlined_cluster : (clusterWhere ι lockKey careful).Outlined (Inv careful)
    (fun i σ => Calm careful (σ.view i)) (Said careful) where
  idle i := stable_onView (P := fun _ => Calm careful) fun _ _ _ => calm_dead
  env := by
    intro σ σ' hinv henv
    obtain ⟨hwf, hviews⟩ := env_effect hinv.wellFormed henv
    refine ⟨hwf, fun i => ?_⟩
    rcases hviews i with hview | hview
    · rw [hview]
      exact hinv.agrees i
    · rw [hview]
      exact agrees_dead
  body i m := by
    cases m with
    | «open» =>
      refine ⟨onView i fun _ => Quiet careful, stable_onView fun _ _ => quiet_dead, ?_, ?_⟩
      · rintro σ - hcalm ⟨-, hleader⟩
        exact ⟨hleader, fun hcareful => hcalm hcareful hleader⟩
      · exact outlines_openElection.strengthen fun _ _ _ _ hcalm => ⟨trivial, hcalm⟩
    | tryAcquire =>
      refine ⟨onView i fun _ => Quiet careful, stable_onView fun _ _ => quiet_dead, ?_, ?_⟩
      · rintro σ - hcalm hleader
        exact ⟨hleader, fun hcareful => hcalm hcareful hleader⟩
      · exact outlines_tryAcquire.strengthen fun _ _ _ _ hdone => ⟨hdone.2, hdone.1⟩
    | release =>
      refine ⟨onView i fun _ => Calm careful, stable_onView fun _ _ _ => calm_dead, ?_, ?_⟩
      · rintro σ - hcalm -
        exact hcalm
      · exact outlines_release.strengthen fun _ _ _ _ hdone => ⟨hdone.2, hdone.1⟩
    | isLeader =>
      refine ⟨onView i fun _ => Calm careful, stable_onView fun _ _ _ => calm_dead, ?_, ?_⟩
      · rintro σ - hcalm -
        exact hcalm
      · exact outlines_isLeader.strengthen fun _ _ _ _ hdone => ⟨hdone.2, hdone.1⟩

omit [DecidableEq ι] in
theorem inv_start : Inv careful ({} : Cluster ι) where
  wellFormed := by constructor <;> simp
  agrees i := by constructor <;> simp [Cluster.view]

omit [DecidableEq ι] in
theorem calm_start (i : ι) : Calm careful (({} : Cluster ι).view i) := fun _ _ => rfl

abbrev ClusterConfig (ι : Type) := Component.Config ι election (Cluster ι) Method Method.Answer

/-- The instance has the flag and a session that lives. -/
def Leads (σ : Cluster ι) (i : ι) : Prop :=
  (σ.members i).leader = true ∧ (σ.view i).live = true

/-- At most one instance leads, and who says that it is the leader has held the lock during
the call, in the session it still has. -/
structure Exclusive (c : ClusterConfig ι) : Prop where
  single : ∀ i j, Leads c.state i → Leads c.state j → i = j
  truthful : ∀ i seen, c.running i = some ⟨.isLeader, .ret true, seen⟩ →
    SeenHolding i seen (c.state.view i)

/-- A release that is about to report success has left the session without the lock. -/
def GivesUp (c : ClusterConfig ι) : Prop :=
  ∀ i seen, c.running i = some ⟨.release, .ret (.ok ()), seen⟩ → (c.state.view i).held = none

omit [DecidableEq ι] in
theorem single_of_inv {σ : Cluster ι} (hinv : Inv careful σ) {i j : ι} (hi : Leads σ i)
    (hj : Leads σ j) : i = j := by
  have hlock : ∀ {k}, Leads σ k → ∃ t again, (σ.members k).connection = some t ∧
      σ.server.lock = some (t, again) := by
    rintro k ⟨hleader, hlive⟩
    have hheld := (hinv.agrees k).holds hleader hlive
    cases hconnection : (σ.members k).connection with
    | none => simp [Cluster.view, hconnection] at hlive
    | some t =>
      cases hholder : σ.server.lock with
      | none => simp [Cluster.view, hconnection, Server.heldBy, hholder] at hheld
      | some held =>
        obtain ⟨holder, again⟩ := held
        obtain rfl : holder = t := by
          by_contra hne
          simp [Cluster.view, hconnection, Server.heldBy, hholder, hne] at hheld
        exact ⟨holder, again, rfl, rfl⟩
  obtain ⟨t, again, hconnection, hholder⟩ := hlock hi
  obtain ⟨u, more, hconnection', hholder'⟩ := hlock hj
  obtain ⟨rfl, -⟩ := Prod.mk.inj (Option.some.inj (hholder.symm.trans hholder'))
  exact hinv.wellFormed.distinct hconnection hconnection'

theorem exclusive_of_reaches {c : ClusterConfig ι}
    (h : (clusterWhere ι lockKey careful).Reaches {} c) : Exclusive c where
  single _ _ hi hj := single_of_inv (outlined_cluster.reaches inv_start calm_start h).1 hi hj
  truthful _ _ hcall := outlined_cluster.returns inv_start calm_start h hcall rfl

/-- **The flag agrees with the lock**: always at most one instance leads and its answers are
true; where no statement on the lock fails in a session that then holds it, a release that
reports success has given the lock up. -/
theorem leader_flag_agrees (lockKey : String) :
    (∀ c : ClusterConfig ι, (cluster lockKey ι).Reaches {} c → Exclusive c) ∧
      ∀ c : ClusterConfig ι, ((cluster lockKey ι).restrict Careful).Reaches {} c →
        Exclusive c ∧ GivesUp c := by
  constructor
  · intro c h
    have hany : (clusterWhere ι lockKey false).Reaches {} c :=
      h.mono fun i σ op r σ' hexec => ⟨hexec, by simp⟩
    exact exclusive_of_reaches hany
  · intro c h
    have hcareful : (clusterWhere ι lockKey true).Reaches {} c :=
      h.mono fun i σ op r σ' hexec => ⟨hexec.1, fun _ => hexec.2⟩
    refine ⟨exclusive_of_reaches hcareful, fun i seen hcall => ?_⟩
    exact outlined_cluster.returns inv_start calm_start hcareful hcall rfl rfl

end Runs

/-! ## Runs of one instance -/

section Sample

/-- An instance that was opened and has become the leader. -/
theorem leading_reached {K : Unit → Cluster Unit → (op : ElectionCall) → op.Reply → Cluster Unit → Prop}
    (hK : ∀ i σ op r σ', failsOnLock op r = false → K i σ op r σ') :
    ∃ σ, ((cluster "1" Unit).restrict K).Reaches {} ⟨fun _ => none, σ⟩ ∧
      (σ.members ()).connection = some 0 ∧ σ.server.live 0 = true ∧
        (σ.members ()).leader = true ∧ σ.server.lock = some (0, 0) := by
  have hstart : ((cluster "1" Unit).restrict K).Reaches {} ⟨fun _ => none, {}⟩ := .refl
  have hopened := (hstart.runs (i := ()) (m := Method.open) rfl ⟨rfl, rfl⟩
    ⟨.ok (), _, _, ⟨⟨rfl, rfl⟩, hK _ _ _ _ _ rfl⟩, rfl, rfl, rfl, rfl⟩).2
  have hleading := (hopened.runs (i := ()) (m := Method.tryAcquire) rfl rfl
    ⟨true, _, _, ⟨⟨rfl, rfl⟩, hK _ _ _ _ _ rfl⟩, rfl,
      .ok ["t"], _, _, ⟨⟨0, rfl, rfl, rfl, rfl⟩, hK _ _ _ _ _ rfl⟩, rfl,
      (), _, _, ⟨rfl, hK _ _ _ _ _ rfl⟩, rfl,
      true, _, _, ⟨⟨rfl, rfl⟩, hK _ _ _ _ _ rfl⟩, rfl, rfl, rfl, rfl⟩).2
  exact ⟨_, hleading, rfl, rfl, rfl, rfl⟩

/-- The leader releases the lock, and the statement succeeds. -/
theorem sample_gives_up : ∃ (c : ClusterConfig Unit) (seen : List (Cluster Unit)),
    ((cluster "1" Unit).restrict Careful).Reaches {} c ∧
      c.running () = some ⟨.release, .ret (.ok ()), seen⟩ ∧ Exclusive c ∧ GivesUp c := by
  obtain ⟨σ, hleading, hconnection, hlive, -, -⟩ := leading_reached (K := Careful)
    fun i σ op r σ' hfine => by simp [Careful, hfine]
  obtain ⟨seen, hreleased⟩ := (hleading.runs (i := ()) (m := Method.release) rfl trivial
    ⟨true, _, _, ⟨⟨by simp [hconnection], rfl⟩, by simp [Careful, failsOnLock]⟩, rfl,
      (), _, _, ⟨rfl, by simp [Careful, failsOnLock]⟩, rfl,
      .ok (), _, _, ⟨⟨0, by simp [Cluster.setMember, hconnection], hlive, rfl⟩,
        by simp [Careful, failsOnLock]⟩, rfl, rfl, rfl, rfl⟩).1
  have hagrees := (leader_flag_agrees "1").2 _ hreleased
  exact ⟨_, seen, hreleased, by simp, hagrees⟩

/-- The unlock statement fails and the session lives on; the next call takes the lock a second
time, and the release after it leaves it once. -/
theorem failed_release_keeps_lock : ∃ c : ClusterConfig Unit,
    (cluster "1" Unit).Reaches {} c ∧ ¬GivesUp c := by
  obtain ⟨σ, hleading, hconnection, hlive, -, hlock⟩ :=
    leading_reached (K := fun _ _ _ _ _ => True) fun _ _ _ _ _ _ => trivial
  have hstart : (cluster "1" Unit).Reaches {} ⟨fun _ => none, σ⟩ :=
    hleading.mono fun i σ op r σ' hexec => hexec.1
  have hfailed := (hstart.runs (i := ()) (m := Method.release) rfl trivial
    ⟨true, _, _, ⟨by simp [hconnection], rfl⟩, rfl, (), _, _, rfl, rfl,
      .error (err .unavailable ""), _, _, ⟨0, by simp [Cluster.setMember, hconnection], .inl rfl⟩, rfl,
      (), _, _, rfl, rfl, rfl, rfl, rfl⟩).2
  have hagain := (hfailed.runs (i := ()) (m := Method.isLeader) rfl trivial
    ⟨true, _, _, ⟨by simp [Cluster.setMember, hconnection], rfl⟩, rfl, true, _, _, rfl, rfl,
      false, _, _, ⟨rfl, rfl⟩, rfl, true, _, _, ⟨by simp [Cluster.setMember, hconnection], rfl⟩, rfl,
      .ok ["t"], _, _, ⟨0, by simp [Cluster.setMember, hconnection], hlive,
        by simp [Cluster.setMember, Server.tryLock, hlock], rfl⟩, rfl,
      (), _, _, rfl, rfl, true, _, _, ⟨rfl, rfl⟩, rfl, rfl, rfl, rfl⟩).2
  have hgranted : (σ.server.tryLock 0).2 = { σ.server with lock := some (0, 1) } := by
    simp [Server.tryLock, hlock]
  obtain ⟨seen, hreleased⟩ := (hagain.runs (i := ()) (m := Method.release) rfl trivial
    ⟨true, _, _, ⟨by simp [Cluster.setMember, Cluster.setServer, hconnection], rfl⟩, rfl,
      (), _, _, rfl, rfl, .ok (), _, _,
      ⟨0, by simp [Cluster.setMember, Cluster.setServer, hconnection],
        by simpa [Cluster.setMember, Cluster.setServer, hgranted] using hlive, rfl⟩,
      rfl, rfl, rfl, rfl⟩).1
  refine ⟨_, hreleased, fun hgivesUp => ?_⟩
  have hnone := hgivesUp () seen (by simp)
  simp [Cluster.view, Cluster.setMember, Cluster.setServer, Server.unlock, Server.heldBy,
    hconnection, hgranted] at hnone

end Sample

end FileService.Postgres
