import FileService.Common.Segments
import FileService.Readiness.Monitors

/-!
# No false alarms

Where no operation fails, no probe comes of age, and all processes that are
started may serve together, a monitor never finds a reason against its
instance. Every row is then that of a process whose probe was written before.
-/
namespace FileService.Readiness
open FileService.Common FileService.Common.Text FileService.Interaction FileService.Postgres

variable {Mount : Type} {d : Deployment Mount} {admits : Self → Prop}

/-- Any two processes that are started may serve together. -/
structure Uniform (d : Deployment Mount) (admits : Self → Prop) : Prop where
  named : ∀ {a}, admits a → a.instanceId ≠ ""
  version : ∀ {a b}, admits a → admits b →
    serviceVersionCompatible a.serviceVersion b.serviceVersion = true
  configHash : ∀ {a b}, admits a → admits b → a.configHash = b.configHash
  required : ∀ {a b}, admits a → admits b → a.sharedMountRequired = b.sharedMountRequired
  mount : ∀ {a b}, admits a → admits b → a.sharedMountRequired = true →
    d.mountOf a.instanceId = d.mountOf b.instanceId

/-- The probe of the instance is where it belongs. -/
def Probed (d : Deployment Mount) (j : String) (s : Cluster Mount) : Prop :=
  ∃ file, s.probes (d.mountOf j) j = some file ∧ SharedMountProbe.names j file.content = true

/-- What is in the row is that of a process whose probe is there if it has to be. -/
def Vouched (d : Deployment Mount) (admits : Self → Prop) (j serviceVersion configHash : String)
    (s : Cluster Mount) : Prop :=
  ∃ b, admits b ∧ b.instanceId = j ∧ b.serviceVersion = serviceVersion ∧
    b.configHash = configHash ∧ (b.sharedMountRequired = true → Probed d j s)

structure Calm (d : Deployment Mount) (admits : Self → Prop) (s : Cluster Mount) : Prop where
  rows : ∀ {j : String} {row}, s.rows[j]? = some row →
    Vouched d admits j row.serviceVersion row.configHash s
  monitors : ∀ {i m}, s.monitors i = some m → admits m.self ∧ m.reason = ""

/-- What an instance keeps to in what it writes for the others. -/
def Keeps (i : String) : InstanceCall → Prop
  | .writeProbe content => SharedMountProbe.names i content = true
  | _ => True

section Steps
variable [DecidableEq Mount] {s s' : Cluster Mount} {i j : String}

/-- The same, where probes name the instances that write them. -/
def smoothKeeping (d : Deployment Mount) (admits : Self → Prop) :
    Component String instances (Cluster Mount) Duty Duty.Answer :=
  (smooth d admits).restrict fun i _ op _ _ => Keeps i op

theorem answer_of_exec {op : InstanceCall} {r : op.Reply}
    (h : (smoothKeeping d admits).exec i s op r s') :
    r = (Cluster.answer d i op s).1 ∧ s' = (Cluster.answer d i op s).2 ∧ Keeps i op := by
  have hanswer : (r, s') = Cluster.answer d i op s := h.1.2
  exact ⟨congrArg Prod.fst hanswer, congrArg Prod.snd hanswer, h.2⟩

/-- Probes stay, whoever acts. -/
theorem Probed.answer (h : Probed d j s) {op : InstanceCall} (hop : Keeps i op) :
    Probed d j (Cluster.answer d i op s).2 := by
  cases op with
  | writeProbe content =>
    obtain ⟨file, hfile, hnames⟩ := h
    by_cases hmount : d.mountOf j = d.mountOf i
    · by_cases hij : j = i
      · subst hij
        exact ⟨⟨content, s.now⟩, by simp [Cluster.answer, Cluster.withProbes], hop⟩
      · refine ⟨file, ?_, hnames⟩
        simpa [Cluster.answer, Cluster.withProbes, hmount, hij] using hmount ▸ hfile
    · refine ⟨file, ?_, hnames⟩
      simpa [Cluster.answer, Cluster.withProbes, hmount] using hfile
  | readProbe peerId =>
    rw [Cluster.answer]
    cases s.probes (d.mountOf i) peerId <;> exact h
  | _ => exact h

theorem Vouched.answer {serviceVersion configHash : String}
    (h : Vouched d admits j serviceVersion configHash s) {op : InstanceCall} (hop : Keeps i op) :
    Vouched d admits j serviceVersion configHash (Cluster.answer d i op s).2 := by
  obtain ⟨b, hb, hid, hversion, hhash, hprobed⟩ := h
  exact ⟨b, hb, hid, hversion, hhash, fun hrequired => (hprobed hrequired).answer hop⟩

/-- A row is one that was there before, up to its heartbeat, or the own one. -/
theorem rows_answer {op : InstanceCall} {row : RegistryRow}
    (h : (Cluster.answer d i op s).2.rows[j]? = some row) :
    (∃ old, s.rows[j]? = some old ∧ old.serviceVersion = row.serviceVersion ∧
      old.configHash = row.configHash) ∨
        j = i ∧ op = .upsert row.serviceVersion row.configHash := by
  cases op with
  | upsert serviceVersion configHash =>
    simp only [Cluster.answer, Cluster.withRows, Std.ExtTreeMap.getElem?_insert] at h
    split_ifs at h with hij
    · cases h
      exact .inr ⟨(Std.LawfulEqCmp.eq_of_compare hij).symm, rfl⟩
    · exact .inl ⟨row, h, rfl, rfl⟩
  | touch =>
    simp only [Cluster.answer, Cluster.withRows, InstanceRegistry.touched] at h
    cases hi : s.rows[i]? with
    | none =>
      rw [hi] at h
      exact .inl ⟨row, h, rfl, rfl⟩
    | some old =>
      simp only [hi, Std.ExtTreeMap.getElem?_insert] at h
      split_ifs at h with hij
      · cases h
        obtain rfl := Std.LawfulEqCmp.eq_of_compare hij
        exact .inl ⟨old, hi, rfl, rfl⟩
      · exact .inl ⟨row, h, rfl, rfl⟩
  | deleteSelf =>
    simp only [Cluster.answer, Cluster.withRows, Std.ExtTreeMap.getElem?_erase] at h
    split_ifs at h
    exact .inl ⟨row, h, rfl, rfl⟩
  | deleteStale staleSeconds =>
    simp only [Cluster.answer, Cluster.withRows] at h
    rw [getElem?_withoutStale, Option.filter_eq_some_iff] at h
    exact .inl ⟨row, h.1, rfl, rfl⟩
  | readProbe peerId =>
    rw [Cluster.answer] at h
    cases hfile : s.probes (d.mountOf i) peerId <;>
    · rw [hfile] at h
      exact .inl ⟨row, h, rfl, rfl⟩
  | _ => exact .inl ⟨row, h, rfl, rfl⟩

theorem monitors_answer {op : InstanceCall} {m : Monitor}
    (h : (Cluster.answer d i op s).2.monitors j = some m) :
    (∃ old, s.monitors j = some old ∧ old.self = m.self ∧
      (old.reason = m.reason ∨ op = .setReason m.reason)) ∨
        op = .started m.self ∧ m.reason = "" := by
  have hset : ∀ {monitor}, (s.withMonitor i monitor).monitors j = some m →
      monitor = some m ∨ s.monitors j = some m := by
    intro monitor hm
    by_cases hj : j = i
    · subst hj
      exact .inl (by simpa [Cluster.withMonitor] using hm)
    · exact .inr (by simpa [Cluster.withMonitor, hj] using hm)
  have hkept : s.monitors j = some m → (∃ old, s.monitors j = some old ∧ old.self = m.self ∧
      (old.reason = m.reason ∨ op = .setReason m.reason)) ∨
        op = .started m.self ∧ m.reason = "" := fun hm => .inl ⟨m, hm, rfl, .inl rfl⟩
  cases op with
  | launch => exact (hset h).elim (by simp) hkept
  | exited => exact (hset h).elim (by simp) hkept
  | started self =>
    refine (hset h).elim (fun hm => ?_) hkept
    obtain rfl := Option.some.inj hm
    exact .inr ⟨rfl, rfl⟩
  | selectLive livenessSeconds =>
    obtain ⟨old, hold, rfl⟩ := monitors_withMonitor h
    refine .inl ⟨old, hold, ?_, .inl ?_⟩ <;> split_ifs <;> rfl
  | setReason reason =>
    obtain ⟨old, hold, rfl⟩ := monitors_withMonitor h
    refine .inl ⟨old, hold, ?_, ?_⟩ <;> split_ifs
    · rfl
    · rfl
    · exact .inr rfl
    · exact .inl rfl
  | readProbe peerId =>
    rw [Cluster.answer] at h
    cases hfile : s.probes (d.mountOf i) peerId <;>
    · rw [hfile] at h
      exact hkept h
  | _ => exact hkept h

/-- What calm asks of an operation of the instance. -/
def CalmMinds (d : Deployment Mount) (admits : Self → Prop) (i : String) (s : Cluster Mount) :
    InstanceCall → Prop
  | .upsert serviceVersion configHash => Vouched d admits i serviceVersion configHash s
  | .started self => admits self
  | .setReason reason => reason = ""
  | _ => True

theorem Calm.answer (h : Calm d admits s) {op : InstanceCall} (hop : Keeps i op)
    (hminds : CalmMinds d admits i s op) : Calm d admits (Cluster.answer d i op s).2 where
  rows := by
    intro j row hrow
    rcases rows_answer hrow with ⟨old, hold, hversion, hhash⟩ | ⟨rfl, rfl⟩
    · rw [← hversion, ← hhash]
      exact (h.rows hold).answer hop
    · exact Vouched.answer hminds hop
  monitors := by
    intro j m hm
    rcases monitors_answer hm with ⟨old, hold, hself, hreason⟩ | ⟨rfl, hreason⟩
    · obtain ⟨hadmits, hcalm⟩ := h.monitors hold
      refine ⟨hself ▸ hadmits, ?_⟩
      rcases hreason with hreason | rfl
      · exact hreason ▸ hcalm
      · exact hminds
    · exact ⟨hminds, hreason⟩

end Steps

/-! ## What the programs rely on -/

section Programs
variable {self : Self}

/-- Statements are carried out. -/
def Succeeds : Assumption instances
  | .upsert .., reply => reply = .ok ()
  | .touch, reply => ∃ n, reply = .ok n
  | _, _ => True

theorem relies_touchHeartbeat_ok (hname : self.instanceId ≠ "") :
    (PgInstanceRegistry.touchHeartbeat self.instanceId self.serviceVersion
      self.configHash).Relies Succeeds (Refreshing self) fun reply => reply = .ok () := by
  unfold PgInstanceRegistry.touchHeartbeat
  refine ⟨trivial, ?_⟩
  rintro reply ⟨n, rfl⟩
  cases n with
  | zero =>
    change (PgInstanceRegistry.upsertSelf ..).Relies _ _ _
    unfold PgInstanceRegistry.upsertSelf
    rw [if_neg hname]
    refine ⟨⟨rfl, rfl⟩, ?_⟩
    rintro reply rfl
    rfl
  | succ n => rfl

/-- The probe of a peer is read where it has to be there. -/
def Inspecting (self : Self) (peers : List InstancePeer) : InstanceCall → Prop
  | .readProbe peerId => self.sharedMountRequired = true ∧ ∃ peer ∈ peers, peer.instanceId = peerId
  | _ => False

/-- The probe that is read names the peer. -/
def Named : Assumption instances
  | .readProbe peerId, reply => ∃ text, reply = .ok text ∧ SharedMountProbe.names peerId text = true
  | _, _ => True

/-- A process of which the peer may be a row is one of those that are started. -/
def Known (admits : Self → Prop) (peer : InstancePeer) : Prop :=
  ∃ b, admits b ∧ b.instanceId = peer.instanceId ∧ b.serviceVersion = peer.serviceVersion ∧
    b.configHash = peer.configHash

theorem relies_inspectPeers_ok (huniform : Uniform d admits) (hself : admits self)
    {peers rest : List InstancePeer} (hrest : rest ⊆ peers) (hknown : ∀ peer ∈ rest, Known admits peer) :
    (inspectPeers self rest).Relies Named (Inspecting self peers) fun reason => reason = "" := by
  induction rest with
  | nil => rfl
  | cons peer rest ih =>
    obtain ⟨hpeer, hrest⟩ := List.cons_subset.mp hrest
    obtain ⟨⟨b, hb, hid, hversion, hhash⟩, hknown⟩ := List.forall_mem_cons.mp hknown
    have hvisible : (peerVisible self peer.instanceId).Relies Named (Inspecting self peers)
        fun visible => visible = true := by
      unfold peerVisible
      split_ifs with hrequired
      · unfold SharedMountProbe.peerProbeVisible
        rw [if_neg (hid ▸ huniform.named hb)]
        refine ⟨⟨hrequired, peer, hpeer, rfl⟩, ?_⟩
        rintro reply ⟨text, rfl, hnames⟩
        exact hnames
      · rfl
    have hreason : peerConsistencyReason peer self.serviceVersion self.configHash = "" := by
      rw [peerConsistencyReason_eq_empty, ← hversion, ← hhash]
      exact ⟨huniform.version hself hb, huniform.configHash hb hself⟩
    rw [inspectPeers]
    refine Program.relies_bind hvisible ?_
    rintro visible rfl
    dsimp only
    rw [hreason]
    exact ih hrest hknown

theorem vouched_livePeers {s : Cluster Mount} (hcalm : Calm d admits s) {peer : InstancePeer}
    {collation : String → String → Bool} {livenessSeconds : Int}
    (h : peer ∈ s.rows.livePeers s.now i collation livenessSeconds) :
    Vouched d admits peer.instanceId peer.serviceVersion peer.configHash s := by
  rw [InstanceRegistry.livePeers, List.mem_mergeSort, List.mem_map] at h
  obtain ⟨⟨j, row⟩, hmem, rfl⟩ := h
  have hrow := Std.ExtTreeMap.mem_toList_iff_getElem?_eq_some.mp (List.mem_filter.mp hmem).1
  exact hcalm.rows hrow

/-- Neither a row is written, nor a process or its reason, nor the probe of another one. -/
def Plain (self : Self) : InstanceCall → Prop
  | .upsert .. | .started _ | .setReason _ => False
  | .writeProbe content => SharedMountProbe.names self.instanceId content = true
  | _ => True

theorem plain_of_background {α : Type} {p : Program instances α} {Q : α → Prop}
    (hp : p.Uses (Background self) Q) : p.Uses (Plain self) Q := by
  refine Program.uses_mono (fun op hop => ?_) hp
  cases op with
  | upsert serviceVersion configHash => exact hop
  | started other => exact hop
  | setReason reason => exact hop
  | writeProbe content => exact hop
  | _ => exact trivial

theorem uses_removeSelf : (PgInstanceRegistry.removeSelf self.instanceId).Uses (Plain self)
    fun _ => True := by
  unfold PgInstanceRegistry.removeSelf
  refine ⟨trivial, fun reply => ?_⟩
  cases reply <;> exact trivial

theorem uses_rejectStartup (e : Error) : (rejectStartup self e).Uses (Plain self) fun _ => True :=
  Program.uses_bind uses_removeSelf fun _ _ => trivial

theorem uses_checkMount : (checkMount self).Uses (Plain self) fun _ => True := by
  unfold checkMount startupMountVisibilityCheck PgInstanceRegistry.listLivePeers
  rw [if_neg (show ¬instanceLivenessSeconds ≤ 0 by decide)]
  split_ifs
  · refine ⟨trivial, fun reply => ?_⟩
    cases reply with
    | error f => exact trivial
    | ok peers => exact plain_of_background (uses_allVisible peers)
  · exact trivial

theorem uses_stop : (stop self).Uses (Plain self) fun _ => True := by
  unfold stop
  refine ⟨trivial, fun _ => ?_⟩
  change (PgInstanceRegistry.removeSelf self.instanceId >>= fun _ => pure ()).Uses _ _
  exact Program.uses_bind uses_removeSelf fun _ _ => trivial

theorem keeps_of_plain {α : Type} {p : Program instances α} {Q : α → Prop}
    (hp : p.Uses (Plain self) Q) : p.Uses (Keeps self.instanceId) Q := by
  refine Program.uses_mono (fun op hop => ?_) hp
  cases op with
  | writeProbe content => exact hop
  | _ => exact trivial

theorem keeps_of_background {α : Type} {p : Program instances α} {Q : α → Prop}
    (hp : p.Uses (Background self) Q) : p.Uses (Keeps self.instanceId) Q :=
  keeps_of_plain (plain_of_background hp)

theorem uses_inspectPeers (peers : List InstancePeer) :
    (inspectPeers self peers).Uses (Background self) fun _ => True := by
  induction peers with
  | nil => exact trivial
  | cons peer peers ih =>
    have hvisible : (peerVisible self peer.instanceId).Uses (Background self) fun _ => True := by
      unfold peerVisible
      split_ifs
      · exact uses_peerProbeVisible peer.instanceId
      · exact trivial
    rw [inspectPeers]
    refine Program.uses_bind hvisible fun visible _ => ?_
    dsimp only
    split_ifs
    · exact trivial
    · exact trivial
    · exact ih

theorem uses_upsertSelf : (PgInstanceRegistry.upsertSelf self.instanceId self.serviceVersion
    self.configHash).Uses (Keeps self.instanceId) fun _ => True := by
  unfold PgInstanceRegistry.upsertSelf
  split_ifs
  · exact trivial
  · refine ⟨trivial, fun reply => ?_⟩
    cases reply <;> exact trivial

theorem uses_evaluate : (evaluate self).Uses (Keeps self.instanceId) fun _ => True := by
  unfold evaluate
  refine Program.uses_bind (keeps_of_background uses_refreshProbe) fun probed _ => ?_
  cases probed with
  | error e => exact trivial
  | ok u =>
    have htouch : (PgInstanceRegistry.touchHeartbeat self.instanceId self.serviceVersion
        self.configHash).Uses (Keeps self.instanceId) fun _ => True := by
      unfold PgInstanceRegistry.touchHeartbeat
      refine ⟨trivial, fun reply => ?_⟩
      rcases reply with f | _ | n
      · exact trivial
      · exact uses_upsertSelf
      · exact trivial
    refine Program.uses_bind htouch fun touched _ => ?_
    cases touched with
    | error e => exact trivial
    | ok u =>
      unfold PgInstanceRegistry.listLivePeers
      rw [if_neg (by decide)]
      refine ⟨trivial, fun reply => ?_⟩
      cases reply with
      | error f => exact trivial
      | ok peers => exact keeps_of_background (uses_inspectPeers peers)

theorem uses_tick : (tick self).Uses (Keeps self.instanceId) fun _ => True := by
  unfold tick
  refine Program.uses_bind uses_evaluate fun reason _ => ⟨trivial, fun _ => ?_⟩
  change (PgInstanceRegistry.cleanupStale _ >>= fun _ => pure ()).Uses _ _
  exact Program.uses_bind (keeps_of_background (uses_cleanupStale self)) fun _ _ => trivial

theorem uses_startup : (startup self).Uses (Keeps self.instanceId) fun _ => True := by
  unfold startup
  refine ⟨trivial, fun _ => ?_⟩
  change Program.Uses _ _ (refreshProbe self >>= _)
  refine Program.uses_bind (keeps_of_background uses_refreshProbe) fun probed _ => ?_
  cases probed with
  | error e => exact trivial
  | ok u =>
    refine Program.uses_bind (keeps_of_background uses_cleanupMount) fun _ _ => ?_
    refine Program.uses_bind uses_upsertSelf fun upserted _ => ?_
    cases upserted with
    | error e => exact keeps_of_plain (uses_rejectStartup e)
    | ok u =>
      refine Program.uses_bind (keeps_of_background (uses_cleanupStale self)) fun _ _ => ?_
      refine Program.uses_bind (keeps_of_plain uses_checkMount) fun checked _ => ?_
      cases checked with
      | error e => exact keeps_of_plain (uses_rejectStartup e)
      | ok u => exact ⟨trivial, fun _ => trivial⟩

end Programs

/-! ## Outlines -/

section Outlines
variable [DecidableEq Mount] {i : String} {self : Self}

/-- What everyone keeps. -/
def Lasting (d : Deployment Mount) (P : Cluster Mount → Prop) : Prop :=
  (∀ i s op, Keeps i op → P s → P (Cluster.answer d i op s).2) ∧
    ∀ s s' : Cluster Mount, s.Passes s' → P s → P s'

theorem lasting_true : Lasting d fun _ => True := ⟨fun _ _ _ _ _ => trivial, fun _ _ _ _ => trivial⟩

theorem lasting_probed {j : String} : Lasting d (Probed d j) := by
  refine ⟨fun i s op hop h => h.answer hop, ?_⟩
  rintro s s' ⟨now, -⟩ h
  exact h

theorem lasting_vouched {j serviceVersion configHash : String} :
    Lasting d (Vouched d admits j serviceVersion configHash) := by
  refine ⟨fun i s op hop h => h.answer hop, ?_⟩
  rintro s s' ⟨now, -⟩ h
  exact h

theorem Lasting.all {α : Type} {P : α → Cluster Mount → Prop} (h : ∀ a, Lasting d (P a)) :
    Lasting d fun s => ∀ a, P a s :=
  ⟨fun i s op hop hP a => (h a).1 i s op hop (hP a),
    fun s s' hpasses hP a => (h a).2 s s' hpasses (hP a)⟩

theorem Lasting.stable {P : Cluster Mount → Prop} (h : Lasting d P) :
    (smoothKeeping d admits).Stable (Calm d admits) i fun _ => P where
  others := by
    rintro j s op r s' seen - - hexec hP
    obtain ⟨-, rfl, hop⟩ := answer_of_exec hexec
    exact h.1 j s op hop hP
  env := fun _ _ hpasses hP => h.2 _ _ hpasses hP

/-- The rule of an operation. -/
theorem outlines_answering {α : Type} {op : InstanceCall} {next : op.Reply → Program instances α}
    {P : Cluster Mount → Prop} {Q : α → Component.Assertion (Cluster Mount)}
    (R : op.Reply → Cluster Mount → Prop) (hR : ∀ r, Lasting d (R r))
    (hminds : ∀ s, Calm d admits s → P s → CalmMinds d admits i s op)
    (hstep : ∀ s, Keeps i op → Calm d admits s → P s →
      R (Cluster.answer d i op s).1 (Cluster.answer d i op s).2)
    (hnext : ∀ r, (smoothKeeping d admits).Outlines (Calm d admits) i (next r) (fun _ => R r) Q) :
    (smoothKeeping d admits).Outlines (Calm d admits) i (asking op >>= next) (fun _ => P) Q := by
  refine Component.outlines_call (fun r _ => R r) (fun r => (hR r).stable) ?_ hnext
  intro seen s r s' hcalm hP hexec
  obtain ⟨rfl, rfl, hop⟩ := answer_of_exec hexec
  exact ⟨hcalm.answer hop (hminds s hcalm hP), hstep s hop hcalm hP⟩

/-- The rule of operations that go on from one lasting fact. -/
theorem outlines_lasting {α : Type} {p : Program instances α} {P : Cluster Mount → Prop}
    {A : Assumption instances} {K : InstanceCall → Prop} {Q : α → Prop} (hp : p.Relies A K Q)
    (hP : Lasting d P) (hkeeps : ∀ op s, K op → Calm d admits s → P s →
      CalmMinds d admits i s op ∧ A op (Cluster.answer d i op s).1) :
    (smoothKeeping d admits).Outlines (Calm d admits) i p (fun _ => P) fun a _ s => Q a ∧ P s := by
  refine Component.outlines_relies hp hP.stable ?_
  intro op seen s r s' hK hcalm hs hexec
  obtain ⟨rfl, rfl, hop⟩ := answer_of_exec hexec
  obtain ⟨hminds, hA⟩ := hkeeps op s hK hcalm hs
  exact ⟨hcalm.answer hop hminds, hA, hP.1 i s op hop hs⟩

theorem Lasting.imp {φ : Prop} {P : Cluster Mount → Prop} (h : Lasting d P) :
    Lasting d fun s => φ → P s :=
  ⟨fun i s op hop hP hφ => h.1 i s op hop (hP hφ), fun s s' hpasses hP hφ => h.2 s s' hpasses (hP hφ)⟩

theorem Lasting.fact {φ : Prop} {P : Cluster Mount → Prop} (h : Lasting d P) :
    Lasting d fun s => φ ∧ P s :=
  ⟨fun i s op hop hP => ⟨hP.1, h.1 i s op hop hP.2⟩,
    fun s s' hpasses hP => ⟨hP.1, h.2 s s' hpasses hP.2⟩⟩

/-- The own probe is there once it has been refreshed. -/
def Refreshed (d : Deployment Mount) (self : Self) (s : Cluster Mount) : Prop :=
  self.sharedMountRequired = true → Probed d self.instanceId s

theorem lasting_refreshed : Lasting d (Refreshed d self) := lasting_probed.imp

theorem outlines_refreshProbe (hname : self.instanceId ≠ "") :
    (smoothKeeping d admits).Outlines (Calm d admits) self.instanceId (refreshProbe self)
      (fun _ _ => True) fun reply _ s => reply = .ok () ∧ Refreshed d self s := by
  unfold refreshProbe
  split_ifs with hrequired
  · refine outlines_answering (fun _ _ => True) (fun _ => lasting_true) (fun _ _ _ => trivial)
      (fun _ _ _ _ => trivial) fun now => ?_
    unfold SharedMountProbe.writeOwn
    rw [if_neg hname]
    refine outlines_answering (fun reply s => reply = .ok () ∧ Probed d self.instanceId s)
      (fun _ => lasting_probed.fact) (fun _ _ _ => trivial) ?_ fun reply => ?_
    · intro s hnames _ _
      exact ⟨rfl, ⟨SharedMountProbe.probeContent self.instanceId now, s.now⟩,
        by simp [Cluster.answer, Cluster.withProbes], hnames⟩
    · refine Component.outlines_fact ?_
      rintro rfl
      refine outlines_answering (fun reply s => (∃ text, reply = .ok text ∧
        SharedMountProbe.names self.instanceId text = true) ∧ Probed d self.instanceId s)
        (fun _ => lasting_probed.fact) (fun _ _ _ => trivial) ?_ fun reply => ?_
      · rintro s hop - hprobed
        obtain ⟨file, hfile, hnames⟩ := hprobed
        refine ⟨⟨file.content, by rw [Cluster.answer, hfile], hnames⟩, ?_⟩
        exact Probed.answer ⟨file, hfile, hnames⟩ hop
      · refine Component.outlines_fact ?_
        rintro ⟨text, rfl, hnames⟩
        dsimp only
        rw [if_pos hnames]
        exact Component.outlines_pure fun _ _ _ h => ⟨rfl, fun _ => h⟩
  · exact Component.outlines_pure fun _ _ _ _ => ⟨rfl, fun h => absurd h hrequired⟩

/-- The own row may be written. -/
abbrev Entitled (d : Deployment Mount) (admits : Self → Prop) (self : Self) :
    Cluster Mount → Prop :=
  Vouched d admits self.instanceId self.serviceVersion self.configHash

theorem outlines_touchHeartbeat_ok (hname : self.instanceId ≠ "") :
    (smoothKeeping d admits).Outlines (Calm d admits) self.instanceId
      (PgInstanceRegistry.touchHeartbeat self.instanceId self.serviceVersion self.configHash)
      (fun _ => Entitled d admits self) fun reply _ s => reply = .ok () ∧ Entitled d admits self s := by
  refine outlines_lasting (relies_touchHeartbeat_ok hname) lasting_vouched ?_
  intro op s hop _ hentitled
  cases op with
  | touch => exact ⟨trivial, _, rfl⟩
  | upsert serviceVersion configHash =>
    obtain ⟨rfl, rfl⟩ := hop
    exact ⟨hentitled, rfl⟩
  | _ => exact hop.elim


/-- The probes of the peers are there if they have to be. -/
def PeersProbed (d : Deployment Mount) (self : Self) (peers : List InstancePeer)
    (s : Cluster Mount) : Prop :=
  ∀ peer, peer ∈ peers → self.sharedMountRequired = true → Probed d peer.instanceId s

theorem lasting_peersProbed {peers : List InstancePeer} :
    Lasting d (PeersProbed d self peers) :=
  .all fun _ => .imp (.imp lasting_probed)

theorem outlines_inspectPeers (huniform : Uniform d admits) (hself : admits self)
    {peers : List InstancePeer} (hknown : ∀ peer ∈ peers, Known admits peer) :
    (smoothKeeping d admits).Outlines (Calm d admits) self.instanceId (inspectPeers self peers)
      (fun _ => PeersProbed d self peers) fun reason _ _ => reason = "" := by
  refine (outlines_lasting (relies_inspectPeers_ok huniform hself (List.Subset.refl peers) hknown)
    lasting_peersProbed ?_).strengthen fun _ _ _ _ h => h.1
  intro op s hop _ hprobed
  cases op with
  | readProbe peerId =>
    obtain ⟨hrequired, peer, hpeer, rfl⟩ := hop
    obtain ⟨b, hb, hid, -, -⟩ := hknown peer hpeer
    obtain ⟨file, hfile, hnames⟩ := hprobed peer hpeer hrequired
    have hmount := huniform.mount hself hb hrequired
    rw [hid] at hmount
    rw [← hmount] at hfile
    exact ⟨trivial, file.content, by rw [Cluster.answer, hfile], hnames⟩
  | _ => exact hop.elim

theorem outlines_evaluate_ok (huniform : Uniform d admits) (hself : admits self) :
    (smoothKeeping d admits).Outlines (Calm d admits) self.instanceId (evaluate self)
      (fun _ _ => True) fun reason _ _ => reason = "" := by
  have hname := huniform.named hself
  unfold evaluate
  refine (outlines_refreshProbe hname).bind fun probed => Component.outlines_fact ?_
  rintro rfl
  have hentitled : ∀ s, Refreshed d self s → Entitled d admits self s :=
    fun s h => ⟨self, hself, rfl, rfl, rfl, h⟩
  refine ((outlines_touchHeartbeat_ok hname).weaken fun _ s _ h => hentitled s h).bind
    fun touched => Component.outlines_fact ?_
  rintro rfl
  unfold PgInstanceRegistry.listLivePeers
  rw [if_neg (by decide)]
  refine outlines_answering (fun reply s => (∃ peers, reply = .ok peers ∧
    ∀ peer ∈ peers, Known admits peer) ∧ ∀ peers, reply = .ok peers → PeersProbed d self peers s)
    (fun _ => .fact (.all fun _ => .imp lasting_peersProbed)) (fun _ _ _ => trivial) ?_
    fun reply => Component.outlines_fact ?_
  · intro s _ hcalm _
    refine ⟨⟨_, rfl, fun peer hpeer => ?_⟩, ?_⟩
    · obtain ⟨b, hb, hid, hversion, hhash, -⟩ := vouched_livePeers hcalm hpeer
      exact ⟨b, hb, hid, hversion, hhash⟩
    · rintro _ ⟨⟩ peer hpeer hrequired
      obtain ⟨b, hb, -, -, -, hprobed⟩ := vouched_livePeers hcalm hpeer
      exact hprobed (huniform.required hself hb ▸ hrequired)
  · rintro ⟨peers, rfl, hknown⟩
    exact (outlines_inspectPeers huniform hself hknown).weaken fun _ _ _ h => h peers rfl

theorem outlines_plain {α : Type} {p : Program instances α} {P : Cluster Mount → Prop}
    (hp : p.Uses (Plain self) fun _ => True) (hP : Lasting d P) :
    (smoothKeeping d admits).Outlines (Calm d admits) i p (fun _ => P) fun _ _ => P := by
  refine (outlines_lasting (A := fun _ _ => True) hp.relies hP ?_).strengthen fun _ _ _ _ h => h.2
  intro op s hop _ _
  cases op with
  | upsert serviceVersion configHash => exact hop.elim
  | started self => exact hop.elim
  | setReason reason => exact hop.elim
  | _ => exact ⟨trivial, trivial⟩

theorem outlines_tick_ok (huniform : Uniform d admits) (hself : admits self) :
    (smoothKeeping d admits).Outlines (Calm d admits) self.instanceId (tick self)
      (fun _ _ => True) fun _ _ _ => True := by
  unfold tick
  refine (outlines_evaluate_ok huniform hself).bind fun reason => ?_
  refine outlines_answering (fun _ _ => True) (fun _ => lasting_true) (fun _ _ h => h)
    (fun _ _ _ _ => trivial) fun _ => ?_
  have hcleanup := plain_of_background (uses_cleanupStale self)
  refine (outlines_plain hcleanup lasting_true).bind fun _ => ?_
  exact Component.outlines_pure fun _ _ _ _ => trivial

theorem outlines_upsertSelf_ok : (smoothKeeping d admits).Outlines (Calm d admits)
    self.instanceId (PgInstanceRegistry.upsertSelf self.instanceId self.serviceVersion
      self.configHash) (fun _ => Entitled d admits self) fun _ _ _ => True := by
  unfold PgInstanceRegistry.upsertSelf
  split_ifs
  · exact Component.outlines_pure fun _ _ _ _ => trivial
  · refine outlines_answering (fun _ _ => True) (fun _ => lasting_true) (fun _ _ h => h)
      (fun _ _ _ _ => trivial) fun reply => ?_
    cases reply <;> exact Component.outlines_pure fun _ _ _ _ => trivial

theorem outlines_startup_ok (huniform : Uniform d admits) (hself : admits self) :
    (smoothKeeping d admits).Outlines (Calm d admits) self.instanceId (startup self)
      (fun _ _ => True) fun _ _ _ => True := by
  have hreject : ∀ e, (smoothKeeping d admits).Outlines (Calm d admits) self.instanceId
      (rejectStartup self e) (fun _ _ => True) fun _ _ _ => True :=
    fun e => outlines_plain (uses_rejectStartup e) lasting_true
  unfold startup
  refine outlines_answering (fun _ _ => True) (fun _ => lasting_true) (fun _ _ _ => trivial)
    (fun _ _ _ _ => trivial) fun _ => ?_
  refine (outlines_refreshProbe (huniform.named hself)).bind fun probed =>
    Component.outlines_fact ?_
  rintro rfl
  have hcleanup : (cleanupMount self).Uses (Plain self) fun _ => True :=
    plain_of_background uses_cleanupMount
  refine (outlines_plain hcleanup lasting_refreshed).bind fun _ => ?_
  refine (outlines_upsertSelf_ok.weaken fun _ s _ h => ⟨self, hself, rfl, rfl, rfl, h⟩).bind
    fun upserted => ?_
  cases upserted with
  | error e => exact hreject e
  | ok u =>
    refine (outlines_plain (plain_of_background (uses_cleanupStale self))
      lasting_true).bind fun _ => ?_
    refine (outlines_plain uses_checkMount lasting_true).bind fun checked => ?_
    cases checked with
    | error e => exact hreject e
    | ok u =>
      exact outlines_answering (fun _ _ => True) (fun _ => lasting_true) (fun _ _ _ => hself)
        (fun _ _ _ _ => trivial) fun _ => Component.outlines_pure fun _ _ _ _ => trivial

theorem outlined_smoothKeeping (huniform : Uniform d admits) :
    (smoothKeeping d admits).Outlined (Calm d admits) (fun _ _ => True) fun _ _ _ _ _ => True where
  idle i := lasting_true.stable
  env := by
    rintro s s' hcalm ⟨now, -⟩
    exact ⟨hcalm.rows, hcalm.monitors⟩
  body := by
    intro i duty
    by_cases hallowed : duty.self.instanceId = i ∧ admits duty.self
    · obtain ⟨rfl, hself⟩ := hallowed
      refine ⟨fun _ _ => True, lasting_true.stable, fun _ _ _ _ => trivial, ?_⟩
      cases duty with
      | startup self =>
        exact (outlines_startup_ok huniform hself).strengthen fun _ _ _ _ _ => ⟨trivial, trivial⟩
      | tick self =>
        exact (outlines_tick_ok huniform hself).strengthen fun _ _ _ _ _ => ⟨trivial, trivial⟩
      | stop self =>
        exact (outlines_plain uses_stop lasting_true).strengthen
          fun _ _ _ _ _ => ⟨trivial, trivial⟩
    · refine ⟨fun _ _ => False, ⟨fun _ _ _ _ h => h, fun _ _ _ h => h⟩, ?_,
        Component.outlines_false⟩
      exact fun s _ _ hduty => hallowed ⟨hduty.1, hduty.2.1⟩

end Outlines

/-! ## Every run -/

theorem calm_empty : Calm d admits ({} : Cluster Mount) where
  rows := by simp
  monitors := by simp

theorem keeps_body {i : String} {duty : Duty} {s : Cluster Mount} (h : duty.allowed admits i s) :
    duty.body.Uses (Keeps i) fun _ => True := by
  obtain ⟨rfl, -, -⟩ := h
  cases duty with
  | startup self => exact uses_startup
  | tick self => exact uses_tick
  | stop self => exact keeps_of_plain uses_stop

/-- However the instances interleave, are killed and are started anew: where nothing fails and any
two processes may serve together, no monitor holds a reason against its instance. -/
theorem no_false_alarm [DecidableEq Mount] (huniform : Uniform d admits)
    {c : Component.Config String (mortal instances) (Cluster Mount) Duty fun duty =>
      Option duty.Answer} (h : (smooth d admits).mortal.Reaches {} c) {i : String} {m : Monitor}
    (hm : c.state.monitors i = some m) : m.reason = "" := by
  have hkeeping := Component.Reaches.guaranteed_mortal (fun _ _ _ hduty => keeps_body hduty) h
  have hreached := (outlined_smoothKeeping huniform).mortal.reaches calm_empty
    (fun _ => trivial) hkeeping
  exact (hreached.1.monitors hm).2

theorem uniform_sample : Uniform sampleDeployment (· ∈ sampleSelves) := by
  simp only [sampleSelves, List.mem_cons, List.not_mem_nil, or_false]
  constructor
  case named => rintro a (rfl | rfl) <;> decide
  case version => rintro a b (rfl | rfl) (rfl | rfl) <;> decide
  case configHash => rintro a b (rfl | rfl) (rfl | rfl) <;> rfl
  case required => rintro a b (rfl | rfl) (rfl | rfl) <;> rfl
  case mount => exact fun _ _ _ => rfl

/-- The first monitor of the sample has evaluated a listing and found nothing. -/
theorem sample_no_false_alarm : ∃ m, (sampleCluster sampleTicked).monitors "a" = some m ∧
    m.basis.isSome = true ∧ m.reason = "" := by
  have ha : ((sampleCluster sampleTicked).monitors "a").any (·.basis.isSome) = true := by
    decide +kernel
  have hreaches := reaches_sampleTicked
  generalize sampleCluster sampleTicked = s at ha hreaches
  obtain ⟨m, hm, hbasis⟩ := (Option.any_eq_true ..).mp ha
  exact ⟨m, hm, hbasis, no_false_alarm uniform_sample hreaches hm⟩

end FileService.Readiness
