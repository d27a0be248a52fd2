import FileService.App.ObjectKeyPolicy
import FileService.Domain.World

/-!
# Container names at the start of the service

The composition root reads the options of a partition, refuses to start with a
name that is no path segment, and registers the partition with the names given.
-/
namespace FileService.App
open FileService.Common FileService.Common.Text FileService.Domain

structure PartitionFileOptions where
  partition : String := "opendes"
  maxFileBytes : Int := 0
  stagingContainer : String := ""
  persistentContainer : String := ""
  storageDriver : String := ""

namespace PartitionFileOptions

/-- `check_name`: the reason to refuse a configured name, or the empty text. -/
def checkName (options : PartitionFileOptions) (name key : String) : String :=
  if name = "" then ""
  else if name = "." ∨ name = ".." then
    "partition.file." ++ options.partition ++ "." ++ key ++ " 不能是 \".\" / \"..\""
  else if name.toList.any fun c => isControl c || c == '/' || c == '\\' || c == '%' then
    "partition.file." ++ options.partition ++ "." ++ key ++
      " 含非法字符（不允许控制字符 / '/' / '\\' / '%'）：" ++ name
  else ""

/-- `ValidatePartitionContainers`: the reason not to start, or the empty text. -/
def validatePartitionContainers (options : PartitionFileOptions) (topLevelDriver : String) :
    String :=
  let staging := options.checkName options.stagingContainer "staging_container"
  if staging ≠ "" then staging
  else
    let persistent := options.checkName options.persistentContainer "persistent_container"
    if persistent ≠ "" then persistent
    else if options.storageDriver ≠ "" ∧ options.storageDriver ≠ topLevelDriver then
      "partition.file." ++ options.partition ++ ".storage_driver（" ++ options.storageDriver ++
        "）与顶层 storage.driver（" ++ topLevelDriver ++
        "）冲突 —— 分区级驱动覆盖未交付（组合根只装配一个 BlobStore，" ++
        "SingleStoreFactory 的所有 partition/zone 共用它）。" ++
        "下一步：删除该键（跟随顶层 storage.driver），或等按 partition/zone 分盘的" ++
        "工厂交付后再接通。"
    else ""

/-- The configuration that the composition root registers. -/
def partitionConfig (options : PartitionFileOptions) (storageDriver storageRoot : String) :
    PartitionConfig where
  partition := options.partition
  driver := if storageDriver = "s3" then .s3 else .posix
  posixRoot := storageRoot
  stagingContainer := options.stagingContainer
  persistentContainer := options.persistentContainer
  maxObjectBytes := if 0 < options.maxFileBytes then options.maxFileBytes else -1

end PartitionFileOptions

/-- A name of one path segment without escapes. -/
def IsContainerName (name : String) : Prop :=
  name ≠ "" ∧ ∀ c ∈ name.toList, isControl c = false ∧ c ≠ '/' ∧ c ≠ '\\' ∧ c ≠ '%'

section Names
variable {name what c : String}

theorem any_forbidden_iff :
    (name.toList.any fun c => isControl c || c == '/' || c == '\\' || c == '%') = false ↔
      ∀ c ∈ name.toList, isControl c = false ∧ c ≠ '/' ∧ c ≠ '\\' ∧ c ≠ '%' := by
  simp [and_assoc]

theorem validateContainerName_ok :
    validateContainerName name what = .ok c ↔ IsContainerName name ∧ c = name := by
  unfold validateContainerName IsContainerName
  by_cases hempty : name = ""
  · simp [hempty]
  rw [← any_forbidden_iff]
  split_ifs with hforbidden
  · simp [hforbidden]
  · simp only [Bool.not_eq_true] at hforbidden
    simp [hempty, hforbidden, eq_comm]

theorem isContainerName_of_checkName {options : PartitionFileOptions} {key : String}
    (h : options.checkName name key = "") (hname : name ≠ "") : IsContainerName name := by
  unfold PartitionFileOptions.checkName at h
  rw [if_neg hname] at h
  split_ifs at h with hdots hforbidden
  · simp [String.append_eq_empty_iff] at h
  · simp [String.append_eq_empty_iff] at h
  · exact ⟨hname, any_forbidden_iff.mp (Bool.eq_false_of_not_eq_true hforbidden)⟩

theorem checkName_of_validated {options : PartitionFileOptions} {driver : String}
    (h : options.validatePartitionContainers driver = "") :
    options.checkName options.stagingContainer "staging_container" = "" ∧
    options.checkName options.persistentContainer "persistent_container" = "" := by
  unfold PartitionFileOptions.validatePartitionContainers at h
  dsimp only at h
  split_ifs at h with hstaging hpersistent
  all_goals simp_all

end Names

section Names
variable {partition c : String} {zone : StorageZone}

def zoneName : StorageZone → String
  | .staging => "staging"
  | .persistent => "persistent"

/-- The name that a partition has by default. -/
def defaultName (partition : String) (zone : StorageZone) : String :=
  toLower partition ++ "-" ++ zoneName zone

theorem defaultContainer_ok :
    defaultContainer partition zone = .ok c ↔
      IsContainerName partition ∧ c = defaultName partition zone := by
  unfold defaultContainer
  cases hname : validateContainerName partition "partition" with
  | ok name =>
    obtain ⟨hpartition, rfl⟩ := validateContainerName_ok.mp hname
    cases zone <;> simp [bind, Except.bind, pure, Except.pure, defaultName, zoneName, hpartition, eq_comm]
  | error e =>
    have hpartition : ¬IsContainerName partition := by
      intro hpartition
      rw [validateContainerName_ok.mpr ⟨hpartition, rfl⟩] at hname
      cases hname
    simp [bind, Except.bind, hpartition]

/-- The name that the configuration gives to a zone, if any. -/
def overrideName (config : PartitionConfig) : StorageZone → String
  | .staging => config.stagingContainer
  | .persistent => config.persistentContainer

theorem configuredContainer_ok {config : PartitionConfig} :
    configuredContainer config zone = .ok c ↔
      if overrideName config zone = "" then
        IsContainerName config.partition ∧ c = defaultName config.partition zone
      else IsContainerName (overrideName config zone) ∧ c = overrideName config zone := by
  cases zone with
  | staging =>
    unfold configuredContainer
    split_ifs <;> simp_all [overrideName, defaultContainer_ok, validateContainerName_ok]
  | persistent =>
    unfold configuredContainer
    split_ifs <;> simp_all [overrideName, defaultContainer_ok, validateContainerName_ok]

/-- The start refuses what requests would: with a configuration that passed, both zones of the
partition have a container. -/
theorem configuredContainer_of_validated {options : PartitionFileOptions} {driver root : String}
    (h : options.validatePartitionContainers driver = "")
    (hpartition : IsContainerName options.partition) :
    ∃ c, configuredContainer (options.partitionConfig driver root) zone = .ok c := by
  have hnames := checkName_of_validated h
  have hname : ∀ name, overrideName (options.partitionConfig driver root) zone = name →
      name ≠ "" → IsContainerName name := by
    intro name hzone hne
    cases zone with
    | staging =>
      cases hzone
      exact isContainerName_of_checkName hnames.1 hne
    | persistent =>
      cases hzone
      exact isContainerName_of_checkName hnames.2 hne
  by_cases hempty : overrideName (options.partitionConfig driver root) zone = ""
  · exact ⟨_, configuredContainer_ok.mpr (by rw [if_pos hempty]; exact ⟨hpartition, rfl⟩)⟩
  · exact ⟨_, configuredContainer_ok.mpr (by rw [if_neg hempty]; exact ⟨hname _ rfl hempty, rfl⟩)⟩

end Names

end FileService.App
