import FileService.Readiness.Instances

/-!
# Instances that are ready agree

An evaluation refreshes the own heartbeat before it lists the live peers. So of
two evaluations the one that lists later sees the row of the other, as long as
both heartbeats are recent; and it finds no reason only if the two agree.
-/
namespace FileService.Readiness
open FileService.Common FileService.Interaction FileService.Postgres

variable {Mount : Type} {d : Deployment Mount} {admits : Self → Prop}

/-! ## What is agreed on -/

/-- The live peer is consistent with the instance, and its probe lies in the same mount. -/
structure Fits (d : Deployment Mount) (i : String) (mine : Self) (peer : InstancePeer) : Prop where
  version : serviceVersionCompatible mine.serviceVersion peer.serviceVersion = true
  configHash : peer.configHash = mine.configHash
  mount : mine.sharedMountRequired = true → d.mountOf peer.instanceId = d.mountOf i

/-- Two instances may serve together. -/
structure Agree (d : Deployment Mount) (i j : String) (a b : Self) : Prop where
  version : serviceVersionCompatible a.serviceVersion b.serviceVersion = true
  configHash : a.configHash = b.configHash
  mount : a.sharedMountRequired = true → b.sharedMountRequired = true → d.mountOf i = d.mountOf j

/-- The listing was made after a heartbeat that is still recent. -/
def Recent (now : Int) (l : Listing) : Prop :=
  ∃ t, l.heartbeatAt = some t ∧ now - seconds instanceLivenessSeconds < t

/-- The last evaluation of the instance has found no reason against it, and rests on a heartbeat
that is still recent. -/
def Cluster.Ready (s : Cluster Mount) (i : String) (self : Self) : Prop :=
  ∃ m l, s.monitors i = some m ∧ m.self = self ∧ m.reason = "" ∧ m.basis = some l ∧ Recent s.now l

/-! ## The invariant -/

/-- The listing is the last one, or the reason rests on it. -/
def Monitor.Holds (m : Monitor) (l : Listing) : Prop := m.listing = some l ∨ m.basis = some l

/-- The row that the instance has while the process runs. -/
def Monitor.entry (m : Monitor) (i : String) : InstancePeer :=
  { instanceId := i, serviceVersion := m.self.serviceVersion, configHash := m.self.configHash }

/-- Rows are those of the running processes; listings come after their heartbeats; and of two
recent listings the later one has the row of the other instance. -/
structure Consistent (d : Deployment Mount) (s : Cluster Mount) : Prop where
  own : ∀ {i : String} {m row}, s.monitors i = some m → s.rows[i]? = some row →
    row.serviceVersion = m.self.serviceVersion ∧ row.configHash = m.self.configHash
  past : ∀ {i : String} {row : RegistryRow}, s.rows[i]? = some row → row.heartbeatAt ≤ s.now
  heard : ∀ {i m l t}, s.monitors i = some m → m.Holds l → l.heartbeatAt = some t → t ≤ s.now
  beats : ∀ {i : String} {m l t}, s.monitors i = some m → m.Holds l → l.heartbeatAt = some t →
    s.now - seconds instanceLivenessSeconds < t → ∃ row, s.rows[i]? = some row ∧ t ≤ row.heartbeatAt
  pairs : ∀ {i j m n k l}, i ≠ j → s.monitors i = some m → s.monitors j = some n → m.Holds k →
    n.Holds l → Recent s.now k → Recent s.now l → n.entry j ∈ k.peers ∨ m.entry i ∈ l.peers
  sound : ∀ {i m l}, s.monitors i = some m → m.basis = some l → m.reason = "" →
    ∀ peer ∈ l.peers, Fits d i m.self peer
  placed : ∀ {mount i file}, s.probes mount i = some file → mount = d.mountOf i

theorem Fits.agree {i j : String} {m n : Monitor} (h : Fits d i m.self (n.entry j)) :
    Agree d i j m.self n.self :=
  ⟨h.version, h.configHash.symm, fun hm _ => (h.mount hm).symm⟩

theorem Agree.symm {i j : String} {a b : Self} (h : Agree d i j a b) : Agree d j i b a :=
  ⟨serviceVersionCompatible_symm h.version, h.configHash.symm, fun hb ha => (h.mount ha hb).symm⟩

theorem Consistent.agree {s : Cluster Mount} (h : Consistent d s) {i j : String} {a b : Self}
    (hij : i ≠ j) (hi : s.Ready i a) (hj : s.Ready j b) : Agree d i j a b := by
  obtain ⟨m, k, hm, rfl, hmreason, hmbasis, hk⟩ := hi
  obtain ⟨n, l, hn, rfl, hnreason, hnbasis, hl⟩ := hj
  rcases h.pairs hij hm hn (.inr hmbasis) (.inr hnbasis) hk hl with hmem | hmem
  · exact (h.sound hm hmbasis hmreason _ hmem).agree
  · exact (h.sound hn hnbasis hnreason _ hmem).agree.symm

/-! ## What the operations keep -/

section Steps
variable {s s' : Cluster Mount} {i j : String} {self : Self}

theorem Recent.mono {now now' : Int} {l : Listing} (hnow : now ≤ now') (h : Recent now' l) :
    Recent now l := by
  obtain ⟨t, ht, hlt⟩ := h
  exact ⟨t, ht, by omega⟩

theorem Consistent.passes (h : Consistent d s) (hpasses : s.Passes s') : Consistent d s' := by
  obtain ⟨now, hnow⟩ := hpasses
  constructor
  case own => exact h.own
  case past => exact fun hrow => (h.past hrow).trans hnow
  case heard => exact fun hm hl ht => (h.heard hm hl ht).trans hnow
  case beats => exact fun hm hl ht hlt => h.beats hm hl ht (by dsimp only at hlt; omega)
  case pairs =>
    exact fun hij hm hn hk hl hmk hnl => h.pairs hij hm hn hk hl (hmk.mono hnow) (hnl.mono hnow)
  case sound => exact h.sound
  case placed => exact h.placed

/-- A change of one row that keeps what the process has in it and does not go back in time. -/
theorem Consistent.withRow (h : Consistent d s) {row : RegistryRow} (hbeat : row.heartbeatAt = s.now)
    (hown : ∀ m, s.monitors i = some m → row.serviceVersion = m.self.serviceVersion ∧
      row.configHash = m.self.configHash) : Consistent d (s.withRows (s.rows.insert i row)) := by
  have hget : ∀ k, (s.rows.insert i row)[k]? = if i = k then some row else s.rows[k]? := by
    intro k
    rw [Std.ExtTreeMap.getElem?_insert]
    simp
  constructor
  case own =>
    intro k m row' hm hrow
    rw [Cluster.withRows, hget] at hrow
    split_ifs at hrow with hk
    · subst hk
      cases hrow
      exact hown m hm
    · exact h.own hm hrow
  case past =>
    intro k row' hrow
    rw [Cluster.withRows, hget] at hrow
    split_ifs at hrow with hk
    · cases hrow
      exact hbeat.le
    · exact h.past hrow
  case heard => exact h.heard
  case beats =>
    intro k m l t hm hl ht hlt
    rw [Cluster.withRows, hget]
    split_ifs with hk
    · exact ⟨row, rfl, hbeat ▸ h.heard hm hl ht⟩
    · exact h.beats hm hl ht hlt
  case pairs => exact h.pairs
  case sound => exact h.sound
  case placed => exact h.placed

/-- Rows may go that belong to no running process or whose heartbeat is not recent. -/
theorem Consistent.withoutRows (h : Consistent d s) {rows : InstanceRegistry}
    (hsub : ∀ (k : String) (row : RegistryRow), rows[k]? = some row → s.rows[k]? = some row)
    (hkept : ∀ (k : String) (row : RegistryRow), s.rows[k]? = some row → rows[k]? = none →
      s.monitors k = none ∨ row.heartbeatAt ≤ s.now - seconds instanceLivenessSeconds) :
    Consistent d (s.withRows rows) := by
  constructor
  case own => exact fun hm hrow => h.own hm (hsub _ _ hrow)
  case past => exact fun hrow => h.past (hsub _ _ hrow)
  case heard => exact h.heard
  case beats =>
    intro k m l t hm hl ht hlt
    obtain ⟨row, hrow, hle⟩ := h.beats hm hl ht hlt
    cases hnew : rows[k]? with
    | some row' =>
      obtain rfl := Option.some.inj ((hsub k row' hnew).symm.trans hrow)
      exact ⟨_, hnew, hle⟩
    | none =>
      rcases hkept k row hrow hnew with hnone | hold
      · have hm' : s.monitors k = some m := hm
        rw [hnone] at hm'
        cases hm'
      · have hlt' : s.now - seconds instanceLivenessSeconds < t := hlt
        omega
  case pairs => exact h.pairs
  case sound => exact h.sound
  case placed => exact h.placed

theorem Consistent.erased (h : Consistent d s) (hnone : s.monitors i = none) :
    Consistent d (s.withRows (s.rows.erase i)) := by
  apply h.withoutRows
  · intro k row hrow
    rw [Std.ExtTreeMap.getElem?_erase] at hrow
    split_ifs at hrow
    exact hrow
  · intro k row hrow hgone
    rw [Std.ExtTreeMap.getElem?_erase] at hgone
    split_ifs at hgone with hk
    · exact .inl (by simpa using (Std.LawfulEqCmp.eq_of_compare hk) ▸ hnone)
    · rw [hrow] at hgone
      cases hgone

theorem getElem?_withoutStale {rows : InstanceRegistry} {now staleSeconds : Int} (k : String) :
    (rows.withoutStale now i staleSeconds)[k]? =
      rows[k]?.filter fun row => !InstanceRegistry.isStale now i staleSeconds k row := by
  simp [InstanceRegistry.withoutStale]

theorem Consistent.cleaned (h : Consistent d s) :
    Consistent d (s.withRows (s.rows.withoutStale s.now i instanceStaleCleanupSeconds)) := by
  apply h.withoutRows
  · intro k row hrow
    rw [getElem?_withoutStale, Option.filter_eq_some_iff] at hrow
    exact hrow.1
  · intro k row hrow hgone
    rw [getElem?_withoutStale, hrow, Option.filter_some] at hgone
    right
    have hstale : InstanceRegistry.isStale s.now i instanceStaleCleanupSeconds k row = true := by
      simpa using hgone
    simp only [InstanceRegistry.isStale, Bool.and_eq_true, decide_eq_true_eq] at hstale
    simp only [seconds, instanceStaleCleanupSeconds] at hstale
    simp only [seconds, instanceLivenessSeconds]
    omega

/-- The process of an instance ends or begins; a new one has listed nothing. -/
theorem Consistent.withProcess (h : Consistent d s) {monitor : Option Monitor}
    (hnew : ∀ m, monitor = some m → m.listing = none ∧ m.basis = none)
    (hown : ∀ m row, monitor = some m → s.rows[i]? = some row →
      row.serviceVersion = m.self.serviceVersion ∧ row.configHash = m.self.configHash) :
    Consistent d (s.withMonitor i monitor) := by
  have hget : ∀ {k m}, (s.withMonitor i monitor).monitors k = some m →
      k = i ∧ monitor = some m ∨ k ≠ i ∧ s.monitors k = some m := by
    intro k m hm
    by_cases hk : k = i
    · subst hk
      exact .inl ⟨rfl, by simpa [Cluster.withMonitor] using hm⟩
    · exact .inr ⟨hk, by simpa [Cluster.withMonitor, hk] using hm⟩
  have hidle : ∀ {m l}, monitor = some m → ¬m.Holds l := by
    rintro m l hm (hl | hl)
    · rw [(hnew m hm).1] at hl
      cases hl
    · rw [(hnew m hm).2] at hl
      cases hl
  constructor
  case own =>
    intro k m row hm hrow
    rcases hget hm with ⟨rfl, hnewm⟩ | ⟨-, hold⟩
    · exact hown m row hnewm hrow
    · exact h.own hold hrow
  case past => exact h.past
  case heard =>
    intro k m l t hm hl ht
    rcases hget hm with ⟨-, hnewm⟩ | ⟨-, hold⟩
    · exact absurd hl (hidle hnewm)
    · exact h.heard hold hl ht
  case beats =>
    intro k m l t hm hl ht hlt
    rcases hget hm with ⟨-, hnewm⟩ | ⟨-, hold⟩
    · exact absurd hl (hidle hnewm)
    · exact h.beats hold hl ht hlt
  case pairs =>
    intro k k' m n l l' hk hm hn hl hl' hrecent hrecent'
    rcases hget hm with ⟨-, hnewm⟩ | ⟨-, holdm⟩
    · exact absurd hl (hidle hnewm)
    rcases hget hn with ⟨-, hnewn⟩ | ⟨-, holdn⟩
    · exact absurd hl' (hidle hnewn)
    exact h.pairs hk holdm holdn hl hl' hrecent hrecent'
  case sound =>
    intro k m l hm hl hreason
    rcases hget hm with ⟨-, hnewm⟩ | ⟨-, hold⟩
    · exact absurd (.inr hl) (hidle hnewm)
    · exact h.sound hold hl hreason
  case placed => exact h.placed

/-- A listing has the row of every instance whose heartbeat is recent. -/
theorem mem_livePeers {rows : InstanceRegistry} {now : Int} {collation : String → String → Bool}
    {row : RegistryRow} (hrow : rows[j]? = some row) (hij : j ≠ i)
    (hlt : now - seconds instanceLivenessSeconds < row.heartbeatAt) :
    ({ instanceId := j, serviceVersion := row.serviceVersion, configHash := row.configHash } :
      InstancePeer) ∈ rows.livePeers now i collation instanceLivenessSeconds := by
  rw [InstanceRegistry.livePeers, List.mem_mergeSort, List.mem_map]
  refine ⟨(j, row), List.mem_filter.mpr ⟨?_, ?_⟩, rfl⟩
  · exact Std.ExtTreeMap.mem_toList_iff_getElem?_eq_some.mpr hrow
  · simp [hij, hlt]

theorem monitors_withMonitor {f : Monitor → Monitor} {k : String} {m : Monitor}
    (hm : (s.withMonitor i ((s.monitors i).map f)).monitors k = some m) :
    ∃ old, s.monitors k = some old ∧ m = if k = i then f old else old := by
  by_cases hk : k = i
  · subst hk
    obtain ⟨old, hold, rfl⟩ : ∃ old, s.monitors k = some old ∧ f old = m := by
      simpa [Cluster.withMonitor] using hm
    exact ⟨old, hold, by simp⟩
  · exact ⟨m, by simpa [Cluster.withMonitor, hk] using hm, by simp [hk]⟩


/-- A listing made now: it comes with the own heartbeat and has every recent row of the others. -/
structure Cluster.Lists (s : Cluster Mount) (i : String) (l : Listing) : Prop where
  heartbeat : ∀ {t}, l.heartbeatAt = some t → ∃ row, s.rows[i]? = some row ∧ row.heartbeatAt = t
  complete : ∀ {j : String} {row : RegistryRow}, s.rows[j]? = some row → j ≠ i →
    s.now - seconds instanceLivenessSeconds < row.heartbeatAt →
      ⟨j, row.serviceVersion, row.configHash⟩ ∈ l.peers

/-- The process keeps what it has listed, or has made a listing now. -/
theorem Consistent.revised (h : Consistent d s) {f : Monitor → Monitor}
    (hself : ∀ m, (f m).self = m.self)
    (hholds : ∀ m l, s.monitors i = some m → (f m).Holds l → m.Holds l ∨ s.Lists i l)
    (hsound : ∀ m l, s.monitors i = some m → (f m).basis = some l → (f m).reason = "" →
      ∀ peer ∈ l.peers, Fits d i m.self peer) :
    Consistent d (s.withMonitor i ((s.monitors i).map f)) := by
  have hold : ∀ {k} {m : Monitor}, (s.withMonitor i ((s.monitors i).map f)).monitors k = some m →
      ∃ old, s.monitors k = some old ∧ m.self = old.self ∧
        ∀ l, m.Holds l → old.Holds l ∨ k = i ∧ s.Lists i l := by
    intro k m hm
    obtain ⟨old, hold, rfl⟩ := monitors_withMonitor hm
    refine ⟨old, hold, ?_, fun l hl => ?_⟩
    · split_ifs
      · exact hself old
      · rfl
    · split_ifs at hl with hk
      · rcases hholds old l (hk ▸ hold) hl with hl | hl
        · exact .inl hl
        · exact .inr ⟨hk, hl⟩
      · exact .inl hl
  -- the other one has a recent heartbeat, so its row is in a listing made now
  have hseen : ∀ {k} {m old : Monitor} {l l'}, s.monitors k = some old → m.self = old.self → k ≠ i →
      old.Holds l → Recent s.now l → s.Lists i l' → m.entry k ∈ l'.peers := by
    intro k m old l l' hk hmself hki hl hrecent hlists
    obtain ⟨t, ht, hlt⟩ := hrecent
    obtain ⟨row, hrow, hle⟩ := h.beats hk hl ht hlt
    obtain ⟨hversion, hhash⟩ := h.own hk hrow
    have hmem := hlists.complete hrow hki (hlt.trans_le hle)
    rw [Monitor.entry, hmself, ← hversion, ← hhash]
    exact hmem
  constructor
  case own =>
    intro k m row hm hrow
    obtain ⟨old, hk, hmself, -⟩ := hold hm
    rw [hmself]
    exact h.own hk hrow
  case past => exact h.past
  case heard =>
    intro k m l t hm hl ht
    obtain ⟨old, hk, -, hlisted⟩ := hold hm
    rcases hlisted l hl with hl | ⟨rfl, hlists⟩
    · exact h.heard hk hl ht
    · obtain ⟨row, hrow, rfl⟩ := hlists.heartbeat ht
      exact h.past hrow
  case beats =>
    intro k m l t hm hl ht hlt
    obtain ⟨old, hk, -, hlisted⟩ := hold hm
    rcases hlisted l hl with hl | ⟨rfl, hlists⟩
    · exact h.beats hk hl ht hlt
    · obtain ⟨row, hrow, rfl⟩ := hlists.heartbeat ht
      exact ⟨row, hrow, le_rfl⟩
  case pairs =>
    intro k k' m n l l' hne hm hn hl hl' hrecent hrecent'
    obtain ⟨oldm, hk, hmself, hlisted⟩ := hold hm
    obtain ⟨oldn, hk', hnself, hlisted'⟩ := hold hn
    rcases hlisted l hl with hl | ⟨rfl, hlists⟩
    · rcases hlisted' l' hl' with hl' | ⟨rfl, hlists'⟩
      · have hmem := h.pairs hne hk hk' hl hl' hrecent hrecent'
        simp only [Monitor.entry, hmself, hnself] at hmem ⊢
        exact hmem
      · exact .inr (hseen hk hmself hne hl hrecent hlists')
    · rcases hlisted' l' hl' with hl' | ⟨rfl, -⟩
      · exact .inl (hseen hk' hnself (Ne.symm hne) hl' hrecent' hlists)
      · exact absurd rfl hne
  case sound =>
    intro k m l hm hl hreason
    obtain ⟨old, hk, rfl⟩ := monitors_withMonitor hm
    split_ifs at hl hreason ⊢ with hki
    · rw [hself, hki]
      exact hsound old l (hki ▸ hk) hl hreason
    · exact h.sound hk hl hreason
  case placed => exact h.placed

theorem Consistent.listed (h : Consistent d s) : Consistent d (s.noteListing i
    (s.rows.livePeers s.now i d.collation instanceLivenessSeconds)) := by
  refine h.revised (fun _ => rfl) ?_ fun m l hm hl hreason => h.sound hm hl hreason
  rintro m l hm (hl | hl)
  · obtain rfl := Option.some.inj hl
    refine .inr ⟨fun ht => Option.map_eq_some_iff.mp ht, ?_⟩
    exact fun hrow hij hlt => mem_livePeers hrow hij hlt
  · exact .inl (.inr hl)

/-- A reason is kept; if it is none, the last listing has been found without objection. -/
theorem Consistent.reasoned (h : Consistent d s) {reason : String}
    (hreason : ∀ m l, s.monitors i = some m → m.listing = some l → reason = "" →
      ∀ peer ∈ l.peers, Fits d i m.self peer) :
    Consistent d (s.withMonitor i ((s.monitors i).map fun m =>
      { m with reason, basis := m.listing })) := by
  refine h.revised (fun _ => rfl) ?_ hreason
  rintro m l - (hl | hl)
  · exact .inl (.inl hl)
  · exact .inl (.inl hl)

theorem Consistent.touched (h : Consistent d s) :
    Consistent d (s.withRows (s.rows.touched s.now i).2) := by
  unfold InstanceRegistry.touched
  cases hrow : s.rows[i]? with
  | none => exact h
  | some row =>
    refine h.withRow rfl fun m hm => ?_
    have hown := h.own hm hrow
    exact hown

variable [DecidableEq Mount]

theorem Consistent.probed (h : Consistent d s) {probes : String → Option ProbeFile}
    (hnew : ∀ k file, probes k = some file →
      k = i ∨ ∃ old, s.probes (d.mountOf i) k = some old) :
    Consistent d (s.withProbes d i probes) where
  own := h.own
  past := h.past
  heard := h.heard
  beats := h.beats
  pairs := h.pairs
  sound := h.sound
  placed := by
    intro mount k file hfile
    have hupdated : Function.update s.probes (d.mountOf i) probes mount k = some file := hfile
    by_cases hmount : mount = d.mountOf i
    · subst hmount
      rw [Function.update_self] at hupdated
      rcases hnew k file hupdated with rfl | ⟨old, hold⟩
      · rfl
      · exact h.placed hold
    · rw [Function.update_of_ne hmount] at hupdated
      exact h.placed hupdated


/-- What the consistency of the cluster asks of an operation of the instance. -/
def Minds (d : Deployment Mount) (i : String) (s : Cluster Mount) : InstanceCall → Prop
  | .upsert serviceVersion configHash => ∀ m, s.monitors i = some m →
    serviceVersion = m.self.serviceVersion ∧ configHash = m.self.configHash
  | .selectLive livenessSeconds => livenessSeconds = instanceLivenessSeconds
  | .deleteSelf => s.monitors i = none
  | .deleteStale staleSeconds => staleSeconds = instanceStaleCleanupSeconds
  | .started self => ∀ row, s.rows[i]? = some row →
    row.serviceVersion = self.serviceVersion ∧ row.configHash = self.configHash
  | .setReason reason => ∀ m l, s.monitors i = some m → m.listing = some l → reason = "" →
    ∀ peer ∈ l.peers, Fits d i m.self peer
  | _ => True

/-- A failing operation has no effect, or that of one that is carried out. -/
theorem Cluster.Exec.effect {op : InstanceCall} {r : op.Reply} (h : Cluster.Exec d i s op r s') :
    s' = s ∨ ∃ r', Cluster.run d i s op r' s' := by
  cases h with
  | done h => exact .inr ⟨_, h⟩
  | upsertLost f => exact .inr ⟨.ok (), rfl⟩
  | touchLost f => exact .inr ⟨.ok _, rfl, rfl⟩
  | deleteSelfLost f => exact .inr ⟨.ok (), rfl⟩
  | deleteStaleLost f => exact .inr ⟨.ok 0, rfl⟩
  | writeProbeLost e => exact .inr ⟨.ok (), rfl⟩
  | _ => exact .inl rfl

theorem Consistent.run (h : Consistent d s) {op : InstanceCall} {r : op.Reply}
    (hminds : Minds d i s op) (hrun : Cluster.run d i s op r s') : Consistent d s' := by
  cases op with
  | launch =>
    obtain rfl : s' = s.withMonitor i none := hrun
    exact h.withProcess (by simp) (by simp)
  | upsert serviceVersion configHash =>
    cases r with
    | error f => exact hrun.elim
    | ok u =>
      obtain rfl : s' = s.withRows _ := hrun
      exact h.withRow rfl hminds
  | touch =>
    cases r with
    | error f => exact hrun.elim
    | ok n =>
      obtain ⟨-, rfl⟩ := hrun
      exact h.touched
  | selectLive livenessSeconds =>
    cases r with
    | error f => exact hrun.elim
    | ok peers =>
      obtain ⟨rfl, rfl⟩ := hrun
      obtain rfl : livenessSeconds = instanceLivenessSeconds := hminds
      exact h.listed
  | deleteSelf =>
    cases r with
    | error f => exact hrun.elim
    | ok u =>
      obtain rfl : s' = s.withRows _ := hrun
      exact h.erased hminds
  | deleteStale staleSeconds =>
    cases r with
    | error f => exact hrun.elim
    | ok n =>
      obtain rfl : s' = s.withRows _ := hrun
      obtain rfl : staleSeconds = instanceStaleCleanupSeconds := hminds
      exact h.cleaned
  | systemClock =>
    obtain rfl : s' = s := hrun
    exact h
  | writeProbe content =>
    cases r with
    | error e => exact hrun.elim
    | ok u =>
      obtain rfl : s' = s.withProbes d i _ := hrun
      apply h.probed
      intro k file hfile
      by_cases hk : k = i
      · exact .inl hk
      · exact .inr ⟨file, by rwa [Function.update_of_ne hk] at hfile⟩
  | readProbe peerId =>
    cases r with
    | error e => exact hrun.elim
    | ok text =>
      obtain ⟨-, rfl⟩ := hrun
      exact h
  | cleanupProbes maxAgeSeconds =>
    cases r with
    | error e => exact hrun.elim
    | ok n =>
      obtain ⟨removed, -, rfl⟩ := hrun
      apply h.probed
      intro k file hfile
      split_ifs at hfile
      exact .inr ⟨file, hfile⟩
  | started self =>
    obtain rfl : s' = s.withMonitor i (some { self }) := hrun
    apply h.withProcess
    · rintro m ⟨⟩
      exact ⟨rfl, rfl⟩
    · rintro m row ⟨⟩ hrow
      exact hminds row hrow
  | setReason reason =>
    obtain rfl : s' = s.withMonitor i _ := hrun
    exact h.reasoned hminds
  | exited =>
    obtain rfl : s' = s.withMonitor i none := hrun
    exact h.withProcess (by simp) (by simp)

theorem Consistent.exec (h : Consistent d s) {op : InstanceCall} {r : op.Reply}
    (hminds : Minds d i s op) (hexec : Cluster.Exec d i s op r s') : Consistent d s' := by
  rcases hexec.effect with rfl | ⟨r', hrun⟩
  · exact h
  · exact h.run hminds hrun

end Steps

end FileService.Readiness
