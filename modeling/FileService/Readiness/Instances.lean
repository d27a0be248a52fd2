import FileService.Common.Decimal
import FileService.Common.Text
import FileService.Postgres.LeaderElection
import Std.Data.ExtTreeMap.Lemmas

/-!
# Instances that watch each other

Every instance keeps a row in the shared table `instance_registry` and, where
the storage root has to be a shared mount, a probe file in that root. A monitor
refreshes both and compares itself with the peers whose heartbeat is recent; it
keeps the reason why the instance is not ready. The clock of the database and
the times of files are one clock here, in microseconds.
-/
namespace FileService.Readiness
open FileService.Common FileService.Interaction FileService.Postgres
open FileService.Common.Text

/-! ## Versions and configurations -/

/-- `strtol` of decimal digits. -/
def strtol (digits : List Char) : Nat := min (Decimal.value digits) (2 ^ 63 - 1)

def parseMajorMinor (version : String) : Option (Nat × Nat) :=
  let core := version.toList.takeWhile fun c => c != '-' && c != '+'
  if '.' ∉ core then none
  else
    let major := core.takeWhile (· != '.')
    let minor := (core.dropWhile (· != '.')).tail.takeWhile (· != '.')
    if major.isEmpty || minor.isEmpty then none
    else if !(major.all Char.isDigit && minor.all Char.isDigit) then none
    else some (strtol major, strtol minor)

def serviceVersionCompatible (self peer : String) : Bool :=
  match parseMajorMinor self, parseMajorMinor peer with
  | some mine, some theirs => mine == theirs
  | _, _ => self == peer

structure InstancePeer where
  instanceId : String
  serviceVersion : String
  configHash : String
deriving DecidableEq

def renderVersion (version : String) : String := if version = "" then "（空）" else version

/-- `Abbreviate`; hashes are ASCII. -/
def abbreviate (text : String) : String :=
  if text.length ≤ 12 then text else String.ofList (text.toList.take 12) ++ "…"

def renderHash (hash : String) : String := if hash = "" then "（空）" else abbreviate hash

/-- Why the peer is not consistent with this instance; empty if it is. -/
def peerConsistencyReason (peer : InstancePeer) (selfServiceVersion selfConfigHash : String) :
    String :=
  if !serviceVersionCompatible selfServiceVersion peer.serviceVersion then
    "实例 " ++ (peer.instanceId ++ " 的服务版本与本实例不兼容（对端 " ++
      renderVersion peer.serviceVersion ++ "，本实例 " ++ renderVersion selfServiceVersion ++
      "）：滚动升级期间新旧 major/minor 不得同时服务（readiness fail-closed）。")
  else if peer.configHash ≠ selfConfigHash then
    "实例 " ++ (peer.instanceId ++ " 的 config_hash 与本实例不一致（对端 " ++
      renderHash peer.configHash ++ "，本实例 " ++ renderHash selfConfigHash ++
      "）：配置不同的实例不得同时服务（滚动升级/误配），readiness fail-closed。")
  else ""

/-- Being of one version is a relation between the texts alone. -/
theorem serviceVersionCompatible_iff {a b : String} : serviceVersionCompatible a b = true ↔
    a = b ∨ ∃ v, parseMajorMinor a = some v ∧ parseMajorMinor b = some v := by
  unfold serviceVersionCompatible
  cases ha : parseMajorMinor a <;> cases hb : parseMajorMinor b
  case some.some v w =>
    simp only [beq_iff_eq, Option.some.injEq, exists_eq_left', eq_comm (a := w)]
    constructor
    · exact .inr
    · rintro (rfl | h)
      · exact Option.some.inj (ha.symm.trans hb)
      · exact h
  all_goals simp

theorem serviceVersionCompatible_refl (a : String) : serviceVersionCompatible a a = true :=
  serviceVersionCompatible_iff.mpr (.inl rfl)

theorem serviceVersionCompatible_symm {a b : String} (h : serviceVersionCompatible a b = true) :
    serviceVersionCompatible b a = true := by
  rw [serviceVersionCompatible_iff] at h ⊢
  rcases h with rfl | ⟨v, ha, hb⟩
  · exact .inl rfl
  · exact .inr ⟨v, hb, ha⟩

theorem serviceVersionCompatible_trans {a b c : String} (h : serviceVersionCompatible a b = true)
    (h' : serviceVersionCompatible b c = true) : serviceVersionCompatible a c = true := by
  rw [serviceVersionCompatible_iff] at h h' ⊢
  rcases h with rfl | ⟨v, ha, hb⟩
  · exact h'
  · rcases h' with rfl | ⟨w, hb', hc⟩
    · exact .inr ⟨v, ha, hb⟩
    · exact .inr ⟨v, ha, Option.some.inj (hb.symm.trans hb') ▸ hc⟩

@[simp] theorem peerConsistencyReason_eq_empty {peer : InstancePeer} {version hash : String} :
    peerConsistencyReason peer version hash = "" ↔
      serviceVersionCompatible version peer.serviceVersion = true ∧ peer.configHash = hash := by
  unfold peerConsistencyReason
  split_ifs with hversion hhash <;> simp_all

/-! ## The registry -/

/-- A row of `instance_registry`. -/
structure RegistryRow where
  serviceVersion : String
  configHash : String
  heartbeatAt : Int
deriving DecidableEq

abbrev InstanceRegistry := Std.ExtTreeMap String RegistryRow

def seconds (n : Int) : Int := n * 1000000

/-- `kInstanceLivenessSeconds` -/
def instanceLivenessSeconds : Int := 30

/-- `kInstanceStaleCleanupSeconds` -/
def instanceStaleCleanupSeconds : Int := 300

/-- `kProbeStaleCleanupSeconds` -/
def probeStaleCleanupSeconds : Int := 3600

namespace InstanceRegistry
variable (rows : InstanceRegistry) (now : Int) (instanceId : String)

def touched : Nat × InstanceRegistry :=
  match rows[instanceId]? with
  | none => (0, rows)
  | some row => (1, rows.insert instanceId { row with heartbeatAt := now })

/-- The rows of the others with a recent heartbeat, in the order of the database. -/
def livePeers (collation : String → String → Bool) (livenessSeconds : Int) : List InstancePeer :=
  ((rows.toList.filter fun e =>
    decide (e.1 ≠ instanceId) && decide (now - seconds livenessSeconds < e.2.heartbeatAt)).map
      fun e => { instanceId := e.1, serviceVersion := e.2.serviceVersion
                 configHash := e.2.configHash : InstancePeer }).mergeSort
    fun a b => collation a.instanceId b.instanceId

def isStale (staleSeconds : Int) (other : String) (row : RegistryRow) : Bool :=
  decide (other ≠ instanceId) && decide (row.heartbeatAt < now - seconds staleSeconds)

def withoutStale (staleSeconds : Int) : InstanceRegistry :=
  rows.filter fun other row => !isStale now instanceId staleSeconds other row

end InstanceRegistry

/-! ## What an instance does with the registry, its root and its memory -/

/-- What a process is started with. -/
structure Self where
  instanceId : String
  serviceVersion : String
  configHash : String
  root : String
  sharedMountRequired : Bool
deriving DecidableEq

/-- The statements have the instance's own id as their parameter, and the files are those under
the instance's own root. `launch`, `started` and `exited` are the life of the process, and
`setReason` is the assignment under `state_mutex_`. -/
inductive InstanceCall where
  | launch
  | upsert (serviceVersion configHash : String)
  | touch
  | selectLive (livenessSeconds : Int)
  | deleteSelf
  | deleteStale (staleSeconds : Int)
  | systemClock
  | writeProbe (content : String)
  | readProbe (peerId : String)
  | cleanupProbes (maxAgeSeconds : Int)
  | started (self : Self)
  | setReason (reason : String)
  | exited

/-- A statement fails where no connection can be borrowed, or by itself. -/
inductive SqlFailure where
  | borrow (e : Error)
  | statement (e : Error)

def SqlFailure.annotated (what : String) : SqlFailure → Error
  | .borrow e => e
  | .statement e => annotate e what

abbrev InstanceCall.Reply : InstanceCall → Type
  | .launch => Unit
  | .upsert .. => Except SqlFailure Unit
  | .touch => Except SqlFailure Nat
  | .selectLive _ => Except SqlFailure (List InstancePeer)
  | .deleteSelf => Except SqlFailure Unit
  | .deleteStale _ => Except SqlFailure Nat
  | .systemClock => Int
  | .writeProbe _ => Result Unit
  | .readProbe _ => Result String
  | .cleanupProbes _ => Result Nat
  | .started _ => Unit
  | .setReason _ => Unit
  | .exited => Unit

abbrev instances : Interface where
  Op := InstanceCall
  Reply := InstanceCall.Reply

abbrev asking (call : InstanceCall) : Program instances call.Reply :=
  Program.perform (I := instances) call

namespace PgInstanceRegistry
variable (instanceId serviceVersion configHash : String)

def upsertSelf : Program instances (Result Unit) := do
  if instanceId = "" then
    return .error (err .invalidArgument
      "instance_registry 注册失败：本实例的 instance_id 为空（组合根必须先确定实例标识）")
  else
    match ← asking (.upsert serviceVersion configHash) with
    | .error failure =>
      return .error (failure.annotated ("instance_registry 注册失败（实例 " ++ instanceId ++
        "）：请确认已执行 db/migrations/001_init.sql"))
    | .ok () => return .ok ()

def touchHeartbeat : Program instances (Result Unit) := do
  match ← asking .touch with
  | .error failure =>
    return .error (failure.annotated ("instance_registry 心跳写入失败（实例 " ++ instanceId ++ "）"))
  | .ok 0 => upsertSelf instanceId serviceVersion configHash
  | .ok _ => return .ok ()

def listLivePeers (livenessSeconds : Int) : Program instances (Result (List InstancePeer)) := do
  if livenessSeconds ≤ 0 then
    return .error (err .invalidArgument "instance_registry 读取失败：liveness_seconds 必须为正")
  else
    match ← asking (.selectLive livenessSeconds) with
    | .error failure => return .error (failure.annotated "instance_registry 读取 live peer 失败")
    | .ok peers => return .ok peers

def removeSelf : Program instances (Result Unit) := do
  match ← asking .deleteSelf with
  | .error failure =>
    return .error (failure.annotated ("instance_registry 注销失败（实例 " ++ instanceId ++ "）"))
  | .ok () => return .ok ()

def cleanupStale (staleSeconds : Int) : Program instances (Result Nat) := do
  if staleSeconds ≤ 0 then
    return .error (err .invalidArgument "instance_registry 清理失败：stale_seconds 必须为正")
  else
    match ← asking (.deleteStale staleSeconds) with
    | .error failure => return .error (failure.annotated "instance_registry 清理过老行失败")
    | .ok removed => return .ok removed

end PgInstanceRegistry

namespace SharedMountProbe

def fileNameFor (instanceId : String) : String := ".fss_probe." ++ instanceId

def pathFor (root peerId : String) : String := root ++ "/" ++ fileNameFor peerId

def instanceIdLine (instanceId : String) : String := "instance_id=" ++ instanceId

/-- The text of a probe file names the instance. -/
def names (instanceId text : String) : Bool :=
  text == instanceIdLine instanceId || containsText text (instanceIdLine instanceId ++ "\n")

def probeContent (instanceId : String) (nowEpochMillis : Int) : String :=
  instanceIdLine instanceId ++ "\n" ++
    ("written_at_epoch_millis=" ++ toString nowEpochMillis ++ "\n")

def writeOwn (root instanceId : String) (nowEpochMillis : Int) : Program instances (Result Unit) := do
  if instanceId = "" then
    return .error (err .invalidArgument "共享挂载探针写入失败：本实例的 instance_id 为空")
  else
    match ← asking (.writeProbe (probeContent instanceId nowEpochMillis)) with
    | .error e => return .error e
    | .ok () =>
      match ← asking (.readProbe instanceId) with
      | .error e => return .error e
      | .ok readBack =>
        if names instanceId readBack then return .ok ()
        else
          return .error (err .internal ("共享挂载探针读回校验失败：" ++ pathFor root instanceId ++
            " 的内容不是本实例写入的"))

def peerProbeVisible (peerId : String) : Program instances Bool := do
  if peerId = "" then return false
  else
    match ← asking (.readProbe peerId) with
    | .error _ => return false
    | .ok text => return names peerId text

end SharedMountProbe

/-! ## The monitor and the life of an instance -/

def mountVisibilityFailureReason (root peerId : String) : String :=
  "共享挂载校验失败：实例 " ++ (peerId ++ " 是 live peer（心跳在 " ++
    toString instanceLivenessSeconds ++ "s 内），但其探针文件 " ++
    SharedMountProbe.pathFor root peerId ++ " 在本实例的 storage.posix.root（" ++ root ++
    "）下不可见 —— storage.posix.root 不是所有实例共享的挂载" ++
    "（能写自己的探针、却看不到别的实例的探针 = 各实例看到的是各自的本地目录）")

section Monitor
variable (self : Self)

/-- The probe counts only where the mount has to be shared. -/
def peerVisible (peerId : String) : Program instances Bool :=
  if self.sharedMountRequired then SharedMountProbe.peerProbeVisible peerId else return true

/-- The loop of `Evaluate` over the live peers. -/
def inspectPeers : List InstancePeer → Program instances String
  | [] => return ""
  | peer :: peers => do
    if !(← peerVisible self peer.instanceId) then
      return mountVisibilityFailureReason self.root peer.instanceId
    else
      let mismatch := peerConsistencyReason peer self.serviceVersion self.configHash
      if mismatch ≠ "" then return mismatch else inspectPeers peers

def refreshProbe : Program instances (Result Unit) := do
  if self.sharedMountRequired then
    let nowMillis ← asking .systemClock
    SharedMountProbe.writeOwn self.root self.instanceId nowMillis
  else return .ok ()

def evaluate : Program instances String := do
  match ← refreshProbe self with
  | .error e => return "共享挂载探针写入失败（readiness fail-closed）：" ++ e.message
  | .ok () =>
    match ← PgInstanceRegistry.touchHeartbeat self.instanceId self.serviceVersion
        self.configHash with
    | .error e => return "instance_registry 心跳失败（readiness fail-closed）：" ++ e.message
    | .ok () =>
      match ← PgInstanceRegistry.listLivePeers instanceLivenessSeconds with
      | .error e => return "无法读取共享的 instance_registry（readiness fail-closed）：" ++ e.message
      | .ok peers => inspectPeers self peers

def tick : Program instances Unit := do
  let reason ← evaluate self
  asking (.setReason reason)
  let _ ← PgInstanceRegistry.cleanupStale instanceStaleCleanupSeconds
  return ()

def allVisible : List InstancePeer → Program instances (Result Unit)
  | [] => return .ok ()
  | peer :: peers => do
    if !(← SharedMountProbe.peerProbeVisible peer.instanceId) then
      return .error (err .unavailable (mountVisibilityFailureReason self.root peer.instanceId))
    else allVisible peers

def startupMountVisibilityCheck : Program instances (Result Unit) := do
  match ← PgInstanceRegistry.listLivePeers instanceLivenessSeconds with
  | .error e => return .error e
  | .ok peers => allVisible self peers

/-- `reject_startup`: the destructor of the registry removes the row. -/
def rejectStartup (e : Error) : Program instances (Result Unit) := do
  let _ ← PgInstanceRegistry.removeSelf self.instanceId
  return .error e

/-- Old probes are removed only where the mount has to be shared, and so for the check. -/
def cleanupMount : Program instances Unit :=
  if self.sharedMountRequired then do
    let _ ← asking (.cleanupProbes probeStaleCleanupSeconds)
    return ()
  else return ()

def checkMount : Program instances (Result Unit) :=
  if self.sharedMountRequired then startupMountVisibilityCheck self else return .ok ()

/-- The startup from the probe on; the row is there before the monitor starts. -/
def startup : Program instances (Result Unit) := do
  asking .launch
  match ← refreshProbe self with
  | .error e => return .error e
  | .ok () =>
    cleanupMount self
    match ← PgInstanceRegistry.upsertSelf self.instanceId self.serviceVersion self.configHash with
    | .error e => rejectStartup self e
    | .ok () =>
      let _ ← PgInstanceRegistry.cleanupStale instanceStaleCleanupSeconds
      match ← checkMount self with
      | .error e => rejectStartup self e
      | .ok () =>
        asking (.started self)
        return .ok ()

/-- The monitor has stopped when the registry is destroyed. -/
def stop : Program instances Unit := do
  asking .exited
  let _ ← PgInstanceRegistry.removeSelf self.instanceId
  return ()

end Monitor

/-! ## The cluster -/

structure ProbeFile where
  content : String
  writtenAt : Int

/-- What was recorded of a listing: the own heartbeat at that moment, and the rows. -/
structure Listing where
  heartbeatAt : Option Int
  peers : List InstancePeer
deriving DecidableEq

/-- The memory of a process whose monitor runs. `basis` is the listing that `reason` rests on,
absent before the first evaluation has ended. -/
structure Monitor where
  self : Self
  reason : String := ""
  listing : Option Listing := none
  basis : Option Listing := none
deriving DecidableEq

/-- The shared table, the files on the mounts, and the processes of the instances. -/
@[ext] structure Cluster (Mount : Type) where
  now : Int := 0
  rows : InstanceRegistry := ∅
  probes : Mount → String → Option ProbeFile := fun _ _ => none
  monitors : String → Option Monitor := fun _ => none

/-- What the instances do not share: the order of texts in the database is given, and every
instance has its root on some mount. -/
structure Deployment (Mount : Type) where
  collation : String → String → Bool
  mountOf : String → Mount

namespace Cluster
variable {Mount : Type} [DecidableEq Mount] (d : Deployment Mount) (i : String)
variable (s : Cluster Mount)

def withRows (rows : InstanceRegistry) : Cluster Mount := { s with rows }

def withMonitor (monitor : Option Monitor) : Cluster Mount :=
  { s with monitors := Function.update s.monitors i monitor }

def withProbes (probes : String → Option ProbeFile) : Cluster Mount :=
  { s with probes := Function.update s.probes (d.mountOf i) probes }

/-- The files of the others that are older than the age. -/
def isOldProbe (maxAgeSeconds : Int) (other : String) (file : ProbeFile) : Bool :=
  decide (other ≠ i) && decide (seconds maxAgeSeconds < s.now - file.writtenAt)

def withoutProbes (removed : String → Bool) : Cluster Mount :=
  s.withProbes d i fun other => if removed other then none else s.probes (d.mountOf i) other

/-- Only old files are removed; a file that cannot be removed stays. -/
def OnlyOld (maxAgeSeconds : Int) (removed : String → Bool) : Prop :=
  ∀ other file, removed other = true → s.probes (d.mountOf i) other = some file →
    isOldProbe i s maxAgeSeconds other file = true

/-- What is recorded of a listing that a running monitor makes. -/
def noteListing (peers : List InstancePeer) : Cluster Mount :=
  s.withMonitor i ((s.monitors i).map fun m =>
    { m with listing := some { heartbeatAt := s.rows[i]?.map RegistryRow.heartbeatAt, peers } })

/-- An operation of an instance that is carried out and answered. -/
def run : (op : InstanceCall) → (reply : op.Reply) → Cluster Mount → Prop
  | .launch, (), s' => s' = s.withMonitor i none
  | .upsert serviceVersion configHash, .ok (), s' =>
    s' = s.withRows (s.rows.insert i { serviceVersion, configHash, heartbeatAt := s.now })
  | .touch, .ok n, s' =>
    n = (s.rows.touched s.now i).1 ∧ s' = s.withRows (s.rows.touched s.now i).2
  | .selectLive livenessSeconds, .ok peers, s' =>
    peers = s.rows.livePeers s.now i d.collation livenessSeconds ∧ s' = s.noteListing i peers
  | .deleteSelf, .ok (), s' => s' = s.withRows (s.rows.erase i)
  | .deleteStale staleSeconds, .ok _, s' => s' = s.withRows (s.rows.withoutStale s.now i staleSeconds)
  | .systemClock, _, s' => s' = s
  | .writeProbe content, .ok (), s' =>
    s' = s.withProbes d i (Function.update (s.probes (d.mountOf i)) i (some ⟨content, s.now⟩))
  | .readProbe peerId, .ok text, s' =>
    (s.probes (d.mountOf i) peerId).map ProbeFile.content = some text ∧ s' = s
  | .cleanupProbes maxAgeSeconds, .ok _, s' =>
    ∃ removed, OnlyOld d i s maxAgeSeconds removed ∧ s' = s.withoutProbes d i removed
  | .started self, (), s' => s' = s.withMonitor i (some { self })
  | .setReason reason, (), s' =>
    s' = s.withMonitor i ((s.monitors i).map fun m => { m with reason, basis := m.listing })
  | .exited, (), s' => s' = s.withMonitor i none
  | _, _, _ => False

/-- A failing operation has no effect, or the whole of it. -/
inductive Exec : (op : InstanceCall) → op.Reply → Cluster Mount → Prop
  | done {op : InstanceCall} {r : op.Reply} {s' : Cluster Mount} : run d i s op r s' → Exec op r s'
  | upsert {serviceVersion configHash : String} (f : SqlFailure) :
      Exec (.upsert serviceVersion configHash) (.error f) s
  | upsertLost {serviceVersion configHash : String} (f : SqlFailure) :
      Exec (.upsert serviceVersion configHash) (.error f)
        (s.withRows (s.rows.insert i { serviceVersion, configHash, heartbeatAt := s.now }))
  | touch (f : SqlFailure) : Exec .touch (.error f) s
  | touchLost (f : SqlFailure) :
      Exec .touch (.error f) (s.withRows (s.rows.touched s.now i).2)
  | selectLive {livenessSeconds : Int} (f : SqlFailure) :
      Exec (.selectLive livenessSeconds) (.error f) s
  | deleteSelf (f : SqlFailure) : Exec .deleteSelf (.error f) s
  | deleteSelfLost (f : SqlFailure) : Exec .deleteSelf (.error f) (s.withRows (s.rows.erase i))
  | deleteStale {staleSeconds : Int} (f : SqlFailure) : Exec (.deleteStale staleSeconds) (.error f) s
  | deleteStaleLost {staleSeconds : Int} (f : SqlFailure) :
      Exec (.deleteStale staleSeconds) (.error f)
        (s.withRows (s.rows.withoutStale s.now i staleSeconds))
  | writeProbe {content : String} (e : Error) : Exec (.writeProbe content) (.error e) s
  | writeProbeLost {content : String} (e : Error) :
      Exec (.writeProbe content) (.error e)
        (s.withProbes d i (Function.update (s.probes (d.mountOf i)) i (some ⟨content, s.now⟩)))
  | readProbe {peerId : String} (e : Error) : Exec (.readProbe peerId) (.error e) s
  | cleanupProbes {maxAgeSeconds : Int} (e : Error) : Exec (.cleanupProbes maxAgeSeconds) (.error e) s

/-- What an operation does that does not fail, where no probe is old. -/
def answer (op : InstanceCall) (s : Cluster Mount) : op.Reply × Cluster Mount :=
  match op with
  | .launch => ((), s.withMonitor i none)
  | .upsert serviceVersion configHash =>
    (.ok (), s.withRows (s.rows.insert i { serviceVersion, configHash, heartbeatAt := s.now }))
  | .touch => (.ok (s.rows.touched s.now i).1, s.withRows (s.rows.touched s.now i).2)
  | .selectLive livenessSeconds =>
    let peers := s.rows.livePeers s.now i d.collation livenessSeconds
    (.ok peers, s.noteListing i peers)
  | .deleteSelf => (.ok (), s.withRows (s.rows.erase i))
  | .deleteStale staleSeconds =>
    let rows := s.rows.withoutStale s.now i staleSeconds
    (.ok (s.rows.size - rows.size), s.withRows rows)
  | .systemClock => (s.now / 1000, s)
  | .writeProbe content =>
    (.ok (), s.withProbes d i (Function.update (s.probes (d.mountOf i)) i (some ⟨content, s.now⟩)))
  | .readProbe peerId =>
    match s.probes (d.mountOf i) peerId with
    | some file => (.ok file.content, s)
    | none => (.error (err .notFound "打开文件失败"), s)
  | .cleanupProbes _ => (.ok 0, s)
  | .started self => ((), s.withMonitor i (some { self }))
  | .setReason reason =>
    ((), s.withMonitor i ((s.monitors i).map fun m => { m with reason, basis := m.listing }))
  | .exited => ((), s.withMonitor i none)

theorem withProbes_self : s.withProbes d i (s.probes (d.mountOf i)) = s := by
  simp [withProbes]

theorem exec_answer (op : InstanceCall) (s : Cluster Mount) :
    Exec d i s op (answer d i op s).1 (answer d i op s).2 := by
  cases op with
  | readProbe peerId =>
    rw [answer]
    cases hfile : s.probes (d.mountOf i) peerId with
    | some file => exact .done ⟨by simp [hfile], rfl⟩
    | none => exact .readProbe _
  | cleanupProbes maxAgeSeconds =>
    refine .done ⟨fun _ => false, by simp [OnlyOld], ?_⟩
    have hsame : s.withoutProbes d i (fun _ => false) = s := withProbes_self d i s
    exact hsame.symm
  | touch => exact .done ⟨rfl, rfl⟩
  | selectLive livenessSeconds => exact .done ⟨rfl, rfl⟩
  | _ => exact .done rfl

/-- Time goes on. -/
inductive Passes : Cluster Mount → Prop
  | passes (now : Int) : s.now ≤ now → Passes { s with now }

end Cluster

/-- What a process can be asked to do by its main thread and by its monitor. -/
inductive Duty where
  | startup (self : Self)
  | tick (self : Self)
  | stop (self : Self)

abbrev Duty.Answer : Duty → Type
  | .startup _ => Result Unit
  | .tick _ => Unit
  | .stop _ => Unit

def Duty.body : (duty : Duty) → Program instances duty.Answer
  | .startup self => Readiness.startup self
  | .tick self => Readiness.tick self
  | .stop self => Readiness.stop self

def Duty.self : Duty → Self
  | .startup self => self
  | .tick self => self
  | .stop self => self

/-- The processes that `admits` lets be started, each under the id it is called with. A process is
started anew at any time; its monitor ticks, and is stopped, while it runs. -/
def Duty.allowed {Mount : Type} (admits : Self → Prop) (i : String) (duty : Duty)
    (s : Cluster Mount) : Prop :=
  duty.self.instanceId = i ∧ admits duty.self ∧
    match duty with
    | .startup _ => True
    | .tick self => ∃ m, s.monitors i = some m ∧ m.self = self
    | .stop self => ∃ m, s.monitors i = some m ∧ m.self = self

/-- The instances over their shared table and mounts. -/
def watchers {Mount : Type} [DecidableEq Mount] (d : Deployment Mount) (admits : Self → Prop) :
    Component String instances (Cluster Mount) Duty Duty.Answer where
  exec i s op r s' := Cluster.Exec d i s op r s'
  env s s' := s.Passes s'
  body := Duty.body
  allowed := Duty.allowed admits

/-- The instances where no operation fails and no probe is old. -/
def smooth {Mount : Type} [DecidableEq Mount] (d : Deployment Mount) (admits : Self → Prop) :
    Component String instances (Cluster Mount) Duty Duty.Answer :=
  (watchers d admits).restrict fun i s op r s' => (r, s') = Cluster.answer d i op s

end FileService.Readiness
