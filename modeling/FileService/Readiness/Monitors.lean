import FileService.Common.Segments
import FileService.Interaction.Evaluation
import FileService.Readiness.Agreement

/-!
# The runs of the monitors

No instance touches what another one remembers, and of its row it can only take
it away. So what a process knows of itself stays true while the others go on,
and every step of a startup, a tick and a stop keeps the cluster consistent.
-/
namespace FileService.Readiness
open FileService.Common FileService.Interaction FileService.Postgres

variable {Mount : Type} {d : Deployment Mount} {admits : Self → Prop}

/-! ## What an instance knows of itself -/

section Knowledge
variable {s s' : Cluster Mount} {i j : String} {self : Self}

/-- The process runs. -/
def Up (i : String) (self : Self) (s : Cluster Mount) : Prop :=
  ∃ m, s.monitors i = some m ∧ m.self = self

/-- No process runs. -/
def Down (i : String) (s : Cluster Mount) : Prop := s.monitors i = none

/-- The process is about to run, and the row is its own. -/
def Registered (i : String) (self : Self) (s : Cluster Mount) : Prop :=
  Down i s ∧ ∀ row, s.rows[i]? = some row →
    row.serviceVersion = self.serviceVersion ∧ row.configHash = self.configHash

/-- The reason has been found for the last listing. -/
def Evaluated (d : Deployment Mount) (i : String) (self : Self) (reason : String)
    (s : Cluster Mount) : Prop :=
  ∃ m, s.monitors i = some m ∧ m.self = self ∧ (reason = "" → ∀ l, m.listing = some l →
    ∀ peer ∈ l.peers, Fits d i self peer)

/-- Nothing is said but of the process, and of the row only what is true of a missing one. -/
def Private (i : String) (P : Cluster Mount → Prop) : Prop :=
  ∀ s s', s'.monitors i = s.monitors i →
    (∀ row, s'.rows[i]? = some row → s.rows[i]? = some row) → P s → P s'

theorem private_up : Private i (Up i self : Cluster Mount → Prop) := by
  rintro s s' hmonitor - ⟨m, hm, hself⟩
  exact ⟨m, hmonitor.trans hm, hself⟩

theorem private_down : Private i (Down i : Cluster Mount → Prop) :=
  fun _ _ hmonitor _ hnone => hmonitor.trans hnone

theorem private_registered : Private i (Registered i self : Cluster Mount → Prop) :=
  fun s s' hmonitor hrows h => ⟨private_down s s' hmonitor hrows h.1, fun row hrow =>
    h.2 row (hrows row hrow)⟩

theorem private_evaluated {reason : String} : Private i (Evaluated d i self reason) := by
  rintro s s' hmonitor - ⟨m, hm, hself, hfits⟩
  exact ⟨m, hmonitor.trans hm, hself, hfits⟩

/-- Neither the processes nor the rows of running processes are concerned; a probe names the
instance that writes it. -/
def Background (self : Self) : InstanceCall → Prop
  | .systemClock | .readProbe _ | .cleanupProbes _ => True
  | .writeProbe content => SharedMountProbe.names self.instanceId content = true
  | .deleteStale staleSeconds => staleSeconds = instanceStaleCleanupSeconds
  | _ => False

/-- A probe is seen where it is. -/
def Sees (d : Deployment Mount) (i : String) : Assumption instances
  | .readProbe peerId, .ok _ => d.mountOf i = d.mountOf peerId
  | _, _ => True

end Knowledge

section Frames
variable [DecidableEq Mount] {s s' : Cluster Mount} {i j : String} {self : Self}

/-- Another instance may remove the row of an instance, and nothing else of it. -/
theorem Cluster.run_frame {op : InstanceCall} {r : op.Reply} (h : Cluster.run d j s op r s')
    (hop : i = j → ∃ self, Background self op) : s'.monitors i = s.monitors i ∧
      ∀ row, s'.rows[i]? = some row → s.rows[i]? = some row := by
  have hmonitors : ∀ monitor, (∀ self, ¬Background self op) → (s.withMonitor j monitor).monitors i =
      s.monitors i := fun monitor hnot =>
    Function.update_of_ne (fun hij => (hop hij).elim hnot) ..
  have hinsert : ∀ row', (∀ self, ¬Background self op) → (s.rows.insert j row')[i]? = s.rows[i]? := by
    intro row' hnot
    rw [Std.ExtTreeMap.getElem?_insert, if_neg]
    exact fun hji => (hop (Std.LawfulEqCmp.eq_of_compare hji).symm).elim hnot
  cases op with
  | launch =>
    obtain rfl : s' = s.withMonitor j none := h
    exact ⟨hmonitors _ (fun _ => id), fun _ => id⟩
  | upsert serviceVersion configHash =>
    cases r with
    | error f => exact h.elim
    | ok u =>
      obtain rfl : s' = s.withRows _ := h
      exact ⟨rfl, fun row hrow => (hinsert _ fun _ => id).symm.trans hrow⟩
  | touch =>
    cases r with
    | error f => exact h.elim
    | ok n =>
      obtain ⟨-, rfl⟩ := h
      refine ⟨rfl, fun row hrow => ?_⟩
      unfold InstanceRegistry.touched at hrow
      cases hj : s.rows[j]? with
      | none =>
        rw [hj] at hrow
        exact hrow
      | some old =>
        rw [hj] at hrow
        exact (hinsert _ fun _ => id).symm.trans hrow
  | selectLive livenessSeconds =>
    cases r with
    | error f => exact h.elim
    | ok peers =>
      obtain ⟨-, rfl⟩ := h
      exact ⟨hmonitors _ (fun _ => id), fun _ => id⟩
  | deleteSelf =>
    cases r with
    | error f => exact h.elim
    | ok u =>
      obtain rfl : s' = s.withRows _ := h
      refine ⟨rfl, fun row hrow => ?_⟩
      have herased : (s.rows.erase j)[i]? = some row := hrow
      rw [Std.ExtTreeMap.getElem?_erase] at herased
      split_ifs at herased
      exact herased
  | deleteStale staleSeconds =>
    cases r with
    | error f => exact h.elim
    | ok n =>
      obtain rfl : s' = s.withRows _ := h
      refine ⟨rfl, fun row hrow => ?_⟩
      have hkept : (s.rows.withoutStale s.now j staleSeconds)[i]? = some row := hrow
      rw [getElem?_withoutStale, Option.filter_eq_some_iff] at hkept
      exact hkept.1
  | systemClock =>
    obtain rfl : s' = s := h
    exact ⟨rfl, fun _ => id⟩
  | writeProbe content =>
    cases r with
    | error e => exact h.elim
    | ok u =>
      obtain rfl : s' = s.withProbes d j _ := h
      exact ⟨rfl, fun _ => id⟩
  | readProbe peerId =>
    cases r with
    | error e => exact h.elim
    | ok text =>
      obtain ⟨-, rfl⟩ := h
      exact ⟨rfl, fun _ => id⟩
  | cleanupProbes maxAgeSeconds =>
    cases r with
    | error e => exact h.elim
    | ok n =>
      obtain ⟨removed, -, rfl⟩ := h
      exact ⟨rfl, fun _ => id⟩
  | started self =>
    obtain rfl : s' = s.withMonitor j _ := h
    exact ⟨hmonitors _ (fun _ => id), fun _ => id⟩
  | setReason reason =>
    obtain rfl : s' = s.withMonitor j _ := h
    exact ⟨hmonitors _ (fun _ => id), fun _ => id⟩
  | exited =>
    obtain rfl : s' = s.withMonitor j _ := h
    exact ⟨hmonitors _ (fun _ => id), fun _ => id⟩

theorem Private.keeps {P : Cluster Mount → Prop} (hP : Private i P) {op : InstanceCall}
    {r : op.Reply} (hexec : Cluster.Exec d j s op r s') (hop : i = j → ∃ self, Background self op) (h : P s) :
    P s' := by
  rcases hexec.effect with rfl | ⟨r', hrun⟩
  · exact h
  · obtain ⟨hmonitor, hrows⟩ := Cluster.run_frame hrun hop
    exact hP s s' hmonitor hrows h

theorem Private.stable {P : Cluster Mount → Prop} (hP : Private i P) :
    (watchers d admits).Stable (Consistent d) i fun _ => P where
  others _ hj _ hexec h := hP.keeps hexec (fun hij => absurd hij.symm hj) h
  env := by
    rintro s s' - - ⟨now, -⟩ h
    exact hP s _ rfl (fun _ => id) h

theorem sees_exec {op : InstanceCall} {r : op.Reply} (h : Consistent d s)
    (hexec : Cluster.Exec d i s op r s') : Sees d i op r := by
  cases op with
  | readProbe peerId =>
    cases r with
    | error e => exact trivial
    | ok text =>
      cases hexec with
      | done hrun =>
        obtain ⟨file, hfile, -⟩ := Option.map_eq_some_iff.mp hrun.1
        exact h.placed hfile
  | _ => cases r <;> exact trivial

/-- The rule of the operations in the background. -/
theorem outlines_background {α : Type} {p : Program instances α} {P : Cluster Mount → Prop}
    {Q : α → Prop} (hP : Private i P) (hp : p.Relies (Sees d i) (Background self) Q) :
    (watchers d admits).Outlines (Consistent d) i p (fun _ => P) fun a _ s => Q a ∧ P s := by
  apply Component.outlines_relies hp hP.stable
  intro op seen s r s' hop h hs hexec
  refine ⟨h.exec ?_ hexec, sees_exec h hexec, hP.keeps hexec (fun _ => ⟨self, hop⟩) hs⟩
  cases op with
  | deleteStale staleSeconds => exact hop
  | systemClock | writeProbe _ | readProbe _ | cleanupProbes _ => exact trivial
  | _ => exact hop.elim

/-- The rule of an operation of the instance. -/
theorem outlines_asking {α : Type} {op : InstanceCall} {next : op.Reply → Program instances α}
    {P : Cluster Mount → Prop} {Q : α → Component.Assertion (Cluster Mount)}
    (R : op.Reply → Cluster Mount → Prop) (hR : ∀ r, Private i (R r))
    (hminds : ∀ s, P s → Minds d i s op)
    (hstep : ∀ s r s', P s → Cluster.Exec d i s op r s' → R r s')
    (hnext : ∀ r, (watchers d admits).Outlines (Consistent d) i (next r) (fun _ => R r) Q) :
    (watchers d admits).Outlines (Consistent d) i (asking op >>= next) (fun _ => P) Q :=
  Component.outlines_call (fun r _ => R r) (fun r => (hR r).stable)
    (fun _ s r s' h hs hexec => ⟨h.exec (hminds s hs) hexec, hstep s r s' hs hexec⟩) hnext

end Frames

/-! ## The outlines -/

section Outlines
variable {i : String} {self : Self}

theorem relies_peerProbeVisible (peerId : String) :
    (SharedMountProbe.peerProbeVisible peerId).Relies (Sees d i) (Background self) fun visible =>
      visible = true → d.mountOf i = d.mountOf peerId := by
  unfold SharedMountProbe.peerProbeVisible
  split_ifs
  · rintro ⟨⟩
  · refine ⟨trivial, fun reply hreply => ?_⟩
    cases reply with
    | error e => rintro ⟨⟩
    | ok text => exact fun _ => hreply

theorem append_ne_empty {a b : String} (h : a ≠ "") : a ++ b ≠ "" := by
  rw [ne_eq, String.append_eq_empty_iff]
  exact fun hboth => h hboth.1

theorem mountVisibilityFailureReason_ne (root peerId : String) :
    mountVisibilityFailureReason root peerId ≠ "" := by
  unfold mountVisibilityFailureReason
  exact append_ne_empty (by simp)

theorem relies_inspectPeers (peers : List InstancePeer) :
    (inspectPeers self peers).Relies (Sees d i) (Background self) fun reason =>
      reason = "" → ∀ peer ∈ peers, Fits d i self peer := by
  induction peers with
  | nil => simp [inspectPeers, Program.Relies, pure]
  | cons peer peers ih =>
    rw [inspectPeers]
    have hvisible : (peerVisible self peer.instanceId).Relies (Sees d i) (Background self) fun visible =>
        visible = true → self.sharedMountRequired = true →
          d.mountOf i = d.mountOf peer.instanceId := by
      unfold peerVisible
      split_ifs with hrequired
      · exact (relies_peerProbeVisible peer.instanceId).imp fun visible h hv _ => h hv
      · exact fun _ htrue => absurd htrue hrequired
    refine Program.relies_bind hvisible fun visible hmount => ?_
    cases visible with
    | false => exact fun hreason => absurd hreason (mountVisibilityFailureReason_ne _ _)
    | true =>
      dsimp only
      split_ifs with hnot hmismatch
      · cases hnot
      · exact fun h => absurd h hmismatch
      · refine ih.imp fun reason h hreason => List.forall_mem_cons.mpr ⟨?_, h hreason⟩
        obtain ⟨hversion, hhash⟩ := peerConsistencyReason_eq_empty.mp (not_not.mp hmismatch)
        exact ⟨hversion, hhash, fun hrequired => (hmount rfl hrequired).symm⟩

theorem names_probeContent (instanceId : String) (nowMillis : Int) :
    SharedMountProbe.names instanceId (SharedMountProbe.probeContent instanceId nowMillis) = true := by
  simp only [SharedMountProbe.names, Bool.or_eq_true]
  right
  rw [Text.containsText_iff]
  refine ⟨[], ("written_at_epoch_millis=" ++ toString nowMillis ++ "\n").toList, ?_⟩
  simp only [SharedMountProbe.probeContent, String.toList_append, List.nil_append]

theorem uses_refreshProbe : (refreshProbe self).Uses (Background self) fun _ => True := by
  unfold refreshProbe
  split_ifs
  · refine ⟨trivial, fun now => ?_⟩
    change (SharedMountProbe.writeOwn self.root self.instanceId now).Uses _ _
    unfold SharedMountProbe.writeOwn
    split_ifs
    · exact trivial
    · refine ⟨names_probeContent .., fun reply => ?_⟩
      cases reply with
      | error e => exact trivial
      | ok u =>
        refine ⟨trivial, fun reply => ?_⟩
        cases reply with
        | error e => exact trivial
        | ok readBack =>
          change (if _ then _ else _ : Program instances (Result Unit)).Uses _ _
          split_ifs <;> exact trivial
  · exact trivial

theorem uses_cleanupStale (self : Self) : (PgInstanceRegistry.cleanupStale instanceStaleCleanupSeconds).Uses
    (Background self) fun _ => True := by
  unfold PgInstanceRegistry.cleanupStale
  rw [if_neg (by decide)]
  refine ⟨rfl, fun reply => ?_⟩
  cases reply <;> exact trivial

theorem uses_cleanupMount : (cleanupMount self).Uses (Background self) fun _ => True := by
  unfold cleanupMount
  split_ifs
  · exact ⟨trivial, fun _ => trivial⟩
  · exact trivial

theorem uses_peerProbeVisible (peerId : String) :
    (SharedMountProbe.peerProbeVisible peerId).Uses (Background self) fun _ => True := by
  unfold SharedMountProbe.peerProbeVisible
  split_ifs
  · exact trivial
  · refine ⟨trivial, fun reply => ?_⟩
    cases reply <;> exact trivial

theorem uses_allVisible (peers : List InstancePeer) :
    (allVisible self peers).Uses (Background self) fun _ => True := by
  induction peers with
  | nil => exact trivial
  | cons peer peers ih =>
    rw [allVisible]
    refine Program.uses_bind (uses_peerProbeVisible peer.instanceId) fun visible _ => ?_
    split_ifs
    · exact trivial
    · exact ih

/-- The last listing is of these peers. -/
def Listed (i : String) (self : Self) (peers : List InstancePeer) (s : Cluster Mount) : Prop :=
  ∃ m l, s.monitors i = some m ∧ m.self = self ∧ m.listing = some l ∧ l.peers = peers

theorem private_listed {peers : List InstancePeer} :
    Private i (Listed i self peers : Cluster Mount → Prop) := by
  rintro s s' hmonitor - ⟨m, l, hm, hself⟩
  exact ⟨m, l, hmonitor.trans hm, hself⟩

variable [DecidableEq Mount]

/-- The own heartbeat. -/
def Refreshing (self : Self) : InstanceCall → Prop
  | .touch => True
  | .upsert serviceVersion configHash =>
    serviceVersion = self.serviceVersion ∧ configHash = self.configHash
  | _ => False

theorem monitors_refreshing {s s' : Cluster Mount} {op : InstanceCall} {r : op.Reply}
    (hop : Refreshing self op) (hexec : Cluster.Exec d i s op r s') : s'.monitors = s.monitors := by
  rcases hexec.effect with rfl | ⟨r', hrun⟩
  · rfl
  · cases op with
    | touch =>
      cases r' with
      | error f => exact hrun.elim
      | ok n =>
        obtain ⟨-, rfl⟩ := hrun
        rfl
    | upsert serviceVersion configHash =>
      cases r' with
      | error f => exact hrun.elim
      | ok u =>
        obtain rfl : s' = s.withRows _ := hrun
        rfl
    | _ => exact hop.elim

theorem relies_touchHeartbeat : (PgInstanceRegistry.touchHeartbeat self.instanceId
    self.serviceVersion self.configHash).Relies (fun _ _ => True) (Refreshing self)
      fun _ => True := by
  unfold PgInstanceRegistry.touchHeartbeat
  refine ⟨trivial, fun reply _ => ?_⟩
  rcases reply with f | _ | n
  · exact trivial
  · change (PgInstanceRegistry.upsertSelf ..).Relies _ _ _
    unfold PgInstanceRegistry.upsertSelf
    split_ifs
    · exact trivial
    · refine ⟨⟨rfl, rfl⟩, fun reply _ => ?_⟩
      cases reply <;> exact trivial
  · exact trivial

theorem outlines_touchHeartbeat : (watchers d admits).Outlines (Consistent d) i
    (PgInstanceRegistry.touchHeartbeat self.instanceId self.serviceVersion self.configHash)
    (fun _ => Up i self) fun _ _ => Up i self := by
  refine (Component.outlines_relies relies_touchHeartbeat private_up.stable ?_).strengthen
    fun _ _ _ _ h => h.2
  rintro op seen s r s' hop h ⟨m, hm, rfl⟩ hexec
  refine ⟨h.exec ?_ hexec, trivial, m, ?_, rfl⟩
  · cases op with
    | touch => exact trivial
    | upsert serviceVersion configHash =>
      intro n hn
      obtain rfl := Option.some.inj (hm.symm.trans hn)
      exact hop
    | _ => exact hop.elim
  · rw [monitors_refreshing hop hexec]
    exact hm

theorem listed_selectLive {s s' : Cluster Mount} {livenessSeconds : Int}
    {reply : Except SqlFailure (List InstancePeer)} (hup : Up i self s)
    (hexec : Cluster.Exec d i s (.selectLive livenessSeconds) reply s') :
    Up i self s' ∧ ∀ peers, reply = .ok peers → Listed i self peers s' := by
  obtain ⟨m, hm, hself⟩ := hup
  cases hexec with
  | selectLive f => exact ⟨⟨m, hm, hself⟩, by simp⟩
  | done hrun =>
    cases reply with
    | error f => exact hrun.elim
    | ok peers =>
      obtain ⟨-, rfl⟩ := hrun
      have hnoted : ∃ l : Listing, (s.noteListing i peers).monitors i =
          some { m with listing := some l } ∧ l.peers = peers := by
        simp [Cluster.noteListing, Cluster.withMonitor, hm]
      obtain ⟨l, hnoted, hpeers⟩ := hnoted
      refine ⟨⟨_, hnoted, hself⟩, ?_⟩
      rintro _ ⟨⟩
      exact ⟨_, l, hnoted, hself, rfl, hpeers⟩

theorem outlines_evaluate : (watchers d admits).Outlines (Consistent d) i (evaluate self)
    (fun _ => Up i self) fun reason _ => Evaluated d i self reason := by
  have hfailed : ∀ (what : String) (e : Error), what ≠ "" → (watchers d admits).Outlines
      (Consistent d) i (pure (what ++ e.message)) (fun _ => Up i self) fun reason _ =>
        Evaluated d i self reason := by
    intro what e hwhat
    apply Component.outlines_pure
    rintro - s - ⟨m, hm, hself⟩
    exact ⟨m, hm, hself, fun hreason => absurd hreason (append_ne_empty hwhat)⟩
  unfold evaluate
  refine (outlines_background private_up uses_refreshProbe.relies).bind fun probed => ?_
  cases probed with
  | error e => exact (hfailed _ e (by simp)).weaken fun _ _ _ h => h.2
  | ok u =>
    refine (outlines_touchHeartbeat.weaken fun _ _ _ h => h.2).bind fun touched => ?_
    cases touched with
    | error e => exact hfailed _ e (by simp)
    | ok u =>
      unfold PgInstanceRegistry.listLivePeers
      rw [if_neg (by decide)]
      refine outlines_asking (fun reply s => Up i self s ∧ ∀ peers, reply = .ok peers →
        Listed i self peers s) ?_ (fun _ _ => rfl) (fun s r s' h => listed_selectLive h) ?_
      · rintro reply s s' hmonitor hrows ⟨hup, hlisted⟩
        exact ⟨private_up s s' hmonitor hrows hup, fun peers hpeers =>
          private_listed s s' hmonitor hrows (hlisted peers hpeers)⟩
      · intro reply
        cases reply with
        | error f => exact (hfailed _ _ (by simp)).weaken fun _ _ _ h => h.1
        | ok peers =>
          have hlisted : Private i (Listed i self peers : Cluster Mount → Prop) := private_listed
          refine ((outlines_background hlisted (relies_inspectPeers peers)).weaken
            fun _ _ _ h => h.2 peers rfl).strengthen ?_
          rintro reason - s - ⟨hfits, m, l, hm, hself, hlisting, rfl⟩
          refine ⟨m, hm, hself, fun hreason l' hl' => ?_⟩
          obtain rfl := Option.some.inj (hlisting.symm.trans hl')
          exact hfits hreason

theorem outlines_tick : (watchers d admits).Outlines (Consistent d) i (tick self)
    (fun _ => Up i self) fun _ _ _ => True := by
  unfold tick
  refine outlines_evaluate.bind fun reason => ?_
  refine outlines_asking (fun _ _ => True) (fun _ _ _ _ _ _ => trivial) ?_
    (fun _ _ _ _ _ => trivial) fun _ => ?_
  · rintro s ⟨m, hm, rfl, hfits⟩ n l hn hl hreason
    obtain rfl := Option.some.inj (hm.symm.trans hn)
    exact hfits hreason l hl
  · refine (outlines_background (fun _ _ _ _ _ => trivial) (uses_cleanupStale self).relies).bind fun _ => ?_
    exact Component.outlines_pure fun _ _ _ _ => trivial

theorem down_process {s s' : Cluster Mount} {op : InstanceCall} {r : op.Reply}
    (hexec : Cluster.Exec d i s op r s') (hop : op = .launch ∨ op = .exited) : Down i s' := by
  rcases hop with rfl | rfl <;>
  · cases hexec with
    | done hrun =>
      obtain rfl : s' = s.withMonitor i none := hrun
      exact Function.update_self ..

theorem outlines_removeSelf : (watchers d admits).Outlines (Consistent d) i
    (PgInstanceRegistry.removeSelf self.instanceId) (fun _ => Down i) fun _ _ _ => True := by
  unfold PgInstanceRegistry.removeSelf
  refine outlines_asking (fun _ _ => True) (fun _ _ _ _ _ _ => trivial) (fun _ h => h)
    (fun _ _ _ _ _ => trivial) fun reply => ?_
  cases reply <;> exact Component.outlines_pure fun _ _ _ _ => trivial

theorem outlines_stop : (watchers d admits).Outlines (Consistent d) i (stop self)
    (fun _ _ => True) fun _ _ _ => True := by
  unfold stop
  refine outlines_asking (fun _ => Down i) (fun _ => private_down) (fun _ _ => trivial)
    (fun _ _ _ _ hexec => down_process hexec (.inr rfl)) fun _ => ?_
  exact outlines_removeSelf.bind fun _ => Component.outlines_pure fun _ _ _ _ => trivial

theorem outlines_rejectStartup (e : Error) : (watchers d admits).Outlines (Consistent d) i
    (rejectStartup self e) (fun _ => Down i) fun _ _ _ => True := by
  unfold rejectStartup
  exact outlines_removeSelf.bind fun _ => Component.outlines_pure fun _ _ _ _ => trivial

/-- A row that has been written is that of the process to be. -/
theorem registered_upsert {s s' : Cluster Mount} {reply : Except SqlFailure Unit} (h : Down i s)
    (hexec : Cluster.Exec d i s (.upsert self.serviceVersion self.configHash) reply s') :
    Down i s' ∧ ∀ u, reply = .ok u → Registered i self s' := by
  have hop : Refreshing self (.upsert self.serviceVersion self.configHash) := ⟨rfl, rfl⟩
  have hdown : Down i s' := by
    rw [Down, monitors_refreshing hop hexec]
    exact h
  refine ⟨hdown, ?_⟩
  rintro u rfl
  cases hexec with
  | done hrun =>
    obtain rfl : s' = s.withRows _ := hrun
    refine ⟨hdown, fun row hrow => ?_⟩
    have hinserted := Std.ExtTreeMap.getElem?_insert_self.symm.trans hrow
    obtain rfl := Option.some.inj hinserted
    exact ⟨rfl, rfl⟩

theorem registered_selectLive {s s' : Cluster Mount} {livenessSeconds : Int}
    {reply : Except SqlFailure (List InstancePeer)} (h : Registered i self s)
    (hexec : Cluster.Exec d i s (.selectLive livenessSeconds) reply s') : Registered i self s' := by
  cases hexec with
  | selectLive f => exact h
  | done hrun =>
    cases reply with
    | error f => exact hrun.elim
    | ok peers =>
      obtain ⟨-, rfl⟩ := hrun
      have hnone : s.monitors i = none := h.1
      exact ⟨by simp [Down, Cluster.noteListing, Cluster.withMonitor, hnone], h.2⟩

theorem outlines_startupMountVisibilityCheck : (watchers d admits).Outlines (Consistent d) i
    (startupMountVisibilityCheck self) (fun _ => Registered i self)
      fun _ _ => Registered i self := by
  unfold startupMountVisibilityCheck PgInstanceRegistry.listLivePeers
  rw [if_neg (by decide)]
  refine outlines_asking (fun _ => Registered i self) (fun _ => private_registered)
    (fun _ _ => rfl) (fun _ _ _ h => registered_selectLive h) fun reply => ?_
  cases reply with
  | error f => exact Component.outlines_pure fun _ _ _ h => h
  | ok peers =>
    exact (outlines_background private_registered (uses_allVisible peers).relies).strengthen
      fun _ _ _ _ h => h.2

/-- The row is there unless it is reported that it could not be written. -/
theorem outlines_upsertSelf : (watchers d admits).Outlines (Consistent d) i
    (PgInstanceRegistry.upsertSelf self.instanceId self.serviceVersion self.configHash)
    (fun _ => Down i) fun reply _ s =>
      Down i s ∧ ∀ u, reply = .ok u → Registered i self s := by
  unfold PgInstanceRegistry.upsertSelf
  split_ifs
  · exact Component.outlines_pure fun _ _ _ h => ⟨h, by simp⟩
  · refine outlines_asking (fun reply s => Down i s ∧ ∀ u, reply = .ok u → Registered i self s)
      ?_ ?_ (fun _ _ _ h => registered_upsert h) fun reply => ?_
    · rintro reply s s' hmonitor hrows ⟨hdown, hregistered⟩
      exact ⟨private_down s s' hmonitor hrows hdown, fun u hu =>
        private_registered s s' hmonitor hrows (hregistered u hu)⟩
    · rintro s hdown m hm
      exact absurd (hdown.symm.trans hm) (by simp)
    · cases reply with
      | error f => exact Component.outlines_pure fun _ _ _ h => ⟨h.1, by simp⟩
      | ok u => exact Component.outlines_pure fun _ _ _ h => ⟨h.1, fun _ _ => h.2 u rfl⟩

theorem outlines_checkMount : (watchers d admits).Outlines (Consistent d) i
    (checkMount self) (fun _ => Registered i self) fun _ _ => Registered i self := by
  unfold checkMount
  split_ifs
  · exact outlines_startupMountVisibilityCheck
  · exact Component.outlines_pure fun _ _ _ h => h

theorem outlines_startup : (watchers d admits).Outlines (Consistent d) i (startup self)
    (fun _ _ => True) fun _ _ _ => True := by
  unfold startup
  refine outlines_asking (fun _ => Down i) (fun _ => private_down) (fun _ _ => trivial)
    (fun _ _ _ _ hexec => down_process hexec (.inl rfl)) fun _ => ?_
  refine (outlines_background private_down uses_refreshProbe.relies).bind fun probed => ?_
  cases probed with
  | error e => exact Component.outlines_pure fun _ _ _ _ => trivial
  | ok u =>
    refine ((outlines_background private_down uses_cleanupMount.relies).weaken
      fun _ _ _ h => h.2).bind fun _ => ?_
    refine (outlines_upsertSelf.weaken fun _ _ _ h => h.2).bind fun upserted => ?_
    cases upserted with
    | error e => exact (outlines_rejectStartup e).weaken fun _ _ _ h => h.1
    | ok u =>
      refine ((outlines_background private_registered (uses_cleanupStale self).relies).weaken
        fun _ _ _ h => h.2 u rfl).bind fun _ => ?_
      refine (outlines_checkMount.weaken fun _ _ _ h => h.2).bind fun checked => ?_
      cases checked with
      | error e => exact (outlines_rejectStartup e).weaken fun _ _ _ h => h.1
      | ok u =>
        exact outlines_asking (fun _ _ => True) (fun _ _ _ _ _ _ => trivial) (fun _ h => h.2)
          (fun _ _ _ _ _ => trivial) fun _ => Component.outlines_pure fun _ _ _ _ => trivial

theorem outlined_watchers : (watchers d admits).Outlined (Consistent d) (fun _ _ => True)
    fun _ _ _ _ _ => True where
  idle i := (show Private i fun _ => True from fun _ _ _ _ _ => trivial).stable
  env h hpasses := h.passes hpasses
  body := by
    intro i duty
    have hall : Private i (fun _ => True : Cluster Mount → Prop) := fun _ _ _ _ _ => trivial
    cases duty with
    | startup self =>
      exact ⟨fun _ _ => True, hall.stable, fun _ _ _ _ => trivial,
        outlines_startup.strengthen fun _ _ _ _ _ => ⟨trivial, trivial⟩⟩
    | tick self =>
      exact ⟨fun _ => Up i self, private_up.stable, fun _ _ _ h => h.2.2,
        outlines_tick.strengthen fun _ _ _ _ _ => ⟨trivial, trivial⟩⟩
    | stop self =>
      exact ⟨fun _ _ => True, hall.stable, fun _ _ _ _ => trivial,
        outlines_stop.strengthen fun _ _ _ _ _ => ⟨trivial, trivial⟩⟩

end Outlines

/-! ## Every run -/

theorem consistent_empty : Consistent d ({} : Cluster Mount) where
  own := by simp
  past := by simp
  heard := by simp
  beats := by simp
  pairs := by simp
  sound := by simp
  placed := by simp

/-- An instance that is not killed does what it is asked to do, and nothing fails. -/
theorem reaches_answered [DecidableEq Mount] {s : Cluster Mount} {i : String} {duty : Duty}
    (h : (smooth d admits).mortal.Reaches {} ⟨fun _ => none, s⟩)
    (hallowed : duty.allowed admits i s) : (smooth d admits).mortal.Reaches {}
      ⟨fun _ => none, (duty.body.evaluate (Cluster.answer d i) s).2⟩ := by
  have hanswer : ∀ op s, (smooth d admits).exec i s op (Cluster.answer d i op s).1
      (Cluster.answer d i op s).2 := fun op s => ⟨Cluster.exec_answer d i op s, rfl⟩
  obtain ⟨t, hperforms⟩ := Program.exists_performs_evaluate hanswer duty.body s
  obtain ⟨t', hmortal⟩ := Component.performs_mortal hperforms
  exact (h.runs rfl hallowed hmortal).2

theorem reaches_of_smooth [DecidableEq Mount]
    {c : Component.Config String (mortal instances) (Cluster Mount) Duty fun duty =>
      Option duty.Answer} (h : (smooth d admits).mortal.Reaches {} c) :
    (watchers d admits).mortal.Reaches {} c := by
  refine h.mono fun i s op reply s' hexec => ?_
  cases reply with
  | some r => exact hexec.1
  | none =>
    rcases hexec with rfl | ⟨r, hexec⟩
    · exact .inl rfl
    · exact .inr ⟨r, hexec.1⟩

def sampleDeployment : Deployment Unit where
  collation a b := decide (a ≤ b)
  mountOf _ := ()

def sampleSelf (instanceId serviceVersion : String) : Self :=
  { instanceId, serviceVersion, configHash := "6f1c", root := "/srv/fss", sharedMountRequired := true }

def sampleSelves : List Self := [sampleSelf "a" "1.4.0", sampleSelf "b" "1.4.2"]

/-- The cluster after these duties, the last one first. -/
def sampleCluster : List (String × Duty) → Cluster Unit
  | [] => {}
  | (i, duty) :: before =>
    (duty.body.evaluate (Cluster.answer sampleDeployment i) (sampleCluster before)).2

theorem reaches_sampleCluster {i : String} {duty : Duty} {before : List (String × Duty)}
    (h : (smooth sampleDeployment (· ∈ sampleSelves)).mortal.Reaches {}
      ⟨fun _ => none, sampleCluster before⟩)
    (hallowed : duty.allowed (· ∈ sampleSelves) i (sampleCluster before)) :
    (smooth sampleDeployment (· ∈ sampleSelves)).mortal.Reaches {}
      ⟨fun _ => none, sampleCluster ((i, duty) :: before)⟩ :=
  reaches_answered h hallowed

def sampleStarted : List (String × Duty) :=
  [("b", .startup (sampleSelf "b" "1.4.2")), ("a", .startup (sampleSelf "a" "1.4.0"))]

def sampleTicked : List (String × Duty) :=
  ("b", .tick (sampleSelf "b" "1.4.2")) :: ("a", .tick (sampleSelf "a" "1.4.0")) :: sampleStarted

theorem reaches_sampleTicked : (smooth sampleDeployment (· ∈ sampleSelves)).mortal.Reaches {}
    ⟨fun _ => none, sampleCluster sampleTicked⟩ := by
  have hmem : sampleSelf "a" "1.4.0" ∈ sampleSelves ∧ sampleSelf "b" "1.4.2" ∈ sampleSelves := by
    simp [sampleSelves]
  have ha : (sampleCluster sampleStarted).monitors "a" =
      some { self := sampleSelf "a" "1.4.0" } := by decide +kernel
  have hb : (sampleCluster (("a", .tick (sampleSelf "a" "1.4.0")) :: sampleStarted)).monitors "b" =
      some { self := sampleSelf "b" "1.4.2" } := by decide +kernel
  refine reaches_sampleCluster ?_ ⟨rfl, hmem.2, _, hb, rfl⟩
  refine reaches_sampleCluster ?_ ⟨rfl, hmem.1, _, ha, rfl⟩
  refine reaches_sampleCluster ?_ ⟨rfl, hmem.2, trivial⟩
  exact reaches_sampleCluster .refl ⟨rfl, hmem.1, trivial⟩

end FileService.Readiness
