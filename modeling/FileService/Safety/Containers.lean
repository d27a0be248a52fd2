import FileService.App.Partitions
import FileService.Common.Segments
import FileService.Posix.ObjectReads

/-!
# Containers of partitions and zones

Two pairs of a partition and a zone share a container only if one of them was
given the name of the other, or if both keep their default names and the
partitions differ in letter case only. No key leads out of a container.
-/
namespace FileService.Safety.Containers
open FileService.Common FileService.Common.Text FileService.Domain FileService.App FileService.Posix

section Defaults
variable {partition other : String} {zone zone' : StorageZone}

theorem zoneName_injective {a b : List Char}
    (h : a ++ '-' :: (zoneName zone).toList = b ++ '-' :: (zoneName zone').toList) :
    a = b ∧ zone = zone' := by
  have hlast := congrArg List.getLast? h
  cases zone <;> cases zone'
  case staging.staging => exact ⟨List.append_cancel_right h, rfl⟩
  case persistent.persistent => exact ⟨List.append_cancel_right h, rfl⟩
  all_goals simp [zoneName] at hlast

/-- A default name tells the zone, and the partition up to the case of its letters. -/
theorem defaultName_inj : defaultName partition zone = defaultName other zone' ↔
    toLower partition = toLower other ∧ zone = zone' := by
  constructor
  · intro h
    have hlist := congrArg String.toList h
    simp only [defaultName, String.toList_append, List.append_assoc] at hlist
    obtain ⟨hlower, hzone⟩ := zoneName_injective hlist
    exact ⟨String.toList_inj.mp hlower, hzone⟩
  · rintro ⟨hlower, rfl⟩
    rw [defaultName, defaultName, hlower]

theorem eq_slash_of_toLower {c : Char} (h : c.toLower = '/') : c = '/' := by
  unfold Char.toLower at h
  split at h
  · rename_i hupper
    exfalso
    have hval := congrArg Char.val h
    simp only [Char.reduceVal, UInt32.reduceSub, ge_iff_le, UInt32.le_iff_toNat_le,
      UInt32.reduceToNat] at hval hupper
    have hnat := congrArg UInt32.toNat hval
    simp only [UInt32.toNat_add, UInt32.reduceToNat] at hnat
    omega
  · exact h

theorem slash_notMem_toLower (h : '/' ∉ partition.toList) : '/' ∉ (toLower partition).toList := by
  simp only [toLower, String.toList_ofList, List.mem_map, not_exists, not_and]
  intro c hc hlower
  apply h
  rwa [← eq_slash_of_toLower hlower]

theorem slash_notMem_defaultName (h : '/' ∉ partition.toList) :
    '/' ∉ (defaultName partition zone).toList := by
  simp only [defaultName, String.toList_append, List.mem_append, not_or]
  exact ⟨⟨slash_notMem_toLower h, by decide⟩, by cases zone <;> decide⟩

end Defaults

/-! ## Names of a registry -/

section Registry
variable (registry : List PartitionConfig)

/-- `ContainerFor(partitions, partition, zone)` at a deployment with this registry. -/
def containerIn (partition : String) (zone : StorageZone) : Result String :=
  containerOf partition zone (World.partitionConfig registry partition)

/-- The name that the registry gives to a zone of the partition. -/
def givenName (partition : String) (zone : StorageZone) : Option String :=
  match World.partitionConfig registry partition with
  | .ok config => if overrideName config zone = "" then none else some (overrideName config zone)
  | .error _ => none

def nameOf (partition : String) (zone : StorageZone) : String :=
  (givenName registry partition zone).getD (defaultName partition zone)

/-- Two pairs whose names collide: a given name is the name of the other pair, or both names are
default names of partitions that differ in letter case only. -/
def Clash (partition : String) (zone : StorageZone) (other : String) (zone' : StorageZone) : Prop :=
  match givenName registry partition zone, givenName registry other zone' with
  | none, none => toLower partition = toLower other ∧ zone = zone'
  | some given, none => given = defaultName other zone'
  | none, some given => given = defaultName partition zone
  | some given, some given' => given = given'

instance (registry : List PartitionConfig) (partition : String) (zone : StorageZone) (other : String)
    (zone' : StorageZone) : Decidable (Clash registry partition zone other zone') := by
  unfold Clash
  split <;> infer_instance

variable {registry} {partition other c d : String} {zone zone' : StorageZone}

/-- The use cases ask for their containers in this way. -/
theorem containerFor_answered (d : Deployment) (w : World) (uuid : String) :
    ((containerFor partition zone).run.answered fun op => (w.apply d uuid op).1).2 =
      .ok (containerIn d.registry partition zone) :=
  rfl

theorem partition_of_registered {config : PartitionConfig}
    (h : World.partitionConfig registry partition = .ok config) : config.partition = partition := by
  unfold World.partitionConfig at h
  split at h
  · rename_i found hfind
    cases h
    simpa using List.find?_some hfind
  · cases h

theorem containerIn_ok (h : containerIn registry partition zone = .ok c) :
    c = nameOf registry partition zone ∧ '/' ∉ c.toList := by
  have hslash : ∀ {name : String}, IsContainerName name → '/' ∉ name.toList :=
    fun hname hmem => (hname.2 _ hmem).2.1 rfl
  unfold containerIn containerOf at h
  cases hconfig : World.partitionConfig registry partition with
  | ok config =>
    obtain rfl := partition_of_registered hconfig
    rw [hconfig] at h
    have hok := configuredContainer_ok.mp h
    simp only [nameOf, givenName, hconfig]
    split_ifs at hok ⊢ with hempty
    · obtain ⟨hname, rfl⟩ := hok
      exact ⟨rfl, slash_notMem_defaultName (hslash hname)⟩
    · obtain ⟨hname, rfl⟩ := hok
      exact ⟨rfl, hslash hname⟩
  | error e =>
    rw [hconfig] at h
    obtain ⟨hname, rfl⟩ := defaultContainer_ok.mp h
    simp only [nameOf, givenName, hconfig]
    exact ⟨rfl, slash_notMem_defaultName (hslash hname)⟩

theorem nameOf_eq_iff : nameOf registry partition zone = nameOf registry other zone' ↔
    Clash registry partition zone other zone' := by
  unfold nameOf Clash
  cases givenName registry partition zone <;> cases givenName registry other zone'
  · simpa using defaultName_inj
  · simp [eq_comm]
  · simp
  · simp

/-- Two containers are one exactly if the names of the pairs clash. -/
theorem container_eq_iff (hc : containerIn registry partition zone = .ok c)
    (hd : containerIn registry other zone' = .ok d) :
    c = d ↔ Clash registry partition zone other zone' := by
  rw [(containerIn_ok hc).1, (containerIn_ok hd).1]
  exact nameOf_eq_iff

end Registry

/-! ## Paths of objects -/

section Paths
variable {key norm root path : String}

theorem normalizeKey_ok (h : normalizeKey key = .ok norm) :
    norm = key ∧ key ≠ "" ∧ key.toList.getLast? ≠ some '/' := by
  unfold normalizeKey at h
  split_ifs at h with hempty _ _ _ hlast
  dsimp only at h
  split at h
  · cases h
  · cases h
    refine ⟨String.toList_inj.mp ?_, hempty, hlast⟩
    have hsplit : (splitOnChar '/' key).map String.toList = key.toList.splitOn '/' := by
      simp [splitOnChar, List.map_map, Function.comp_def]
    rw [String.toList_intercalate, hsplit]
    exact List.intercalate_splitOn '/'

/-- The root of a store, without a slash at its end. -/
def baseOf (root : String) : String :=
  if root.toList.getLast? = some '/' then String.ofList root.toList.dropLast else root

theorem lexicalJoin_ok (h : lexicalJoin root key = .ok path) :
    path = baseOf root ++ "/" ++ key ∧ key ≠ "" ∧ key.toList.getLast? ≠ some '/' := by
  unfold lexicalJoin at h
  cases hnorm : normalizeKey key with
  | error e =>
    rw [hnorm] at h
    cases h
  | ok norm =>
    rw [hnorm] at h
    obtain ⟨rfl, hkey⟩ := normalizeKey_ok hnorm
    simp only [bind, Except.bind, pure, Except.pure] at h
    split_ifs at h with hroot hlast
    · cases h
      exact ⟨by simp [baseOf, hlast], hkey⟩
    · cases h
      exact ⟨by simp [baseOf, hlast], hkey⟩

theorem getLast?_toList_append {base : String} (hne : key ≠ "") :
    (base ++ key).toList.getLast? = key.toList.getLast? := by
  have hlist : key.toList ≠ [] := by simpa using hne
  rw [String.toList_append, List.getLast?_append_of_ne_nil _ hlist]

variable {store : PosixBlobStore} {ref ref' : ObjectRef}

/-- The path of an object spells out its container and its key. -/
theorem pathOf_ok (h : store.pathOf ref = .ok path) :
    path = baseOf store.root ++ "/" ++ ref.container ++ "/" ++ ref.key := by
  unfold PosixBlobStore.pathOf PosixBlobStore.containerDir at h
  cases hdir : lexicalJoin store.root ref.container with
  | error e =>
    rw [hdir] at h
    cases h
  | ok dir =>
    rw [hdir] at h
    obtain ⟨rfl, hne, hlast⟩ := lexicalJoin_ok hdir
    obtain ⟨rfl, -⟩ := lexicalJoin_ok h
    rw [baseOf, getLast?_toList_append hne, if_neg hlast]

theorem container_of_pathOf (h : store.pathOf ref = .ok path) (h' : store.pathOf ref' = .ok path)
    (hslash : '/' ∉ ref.container.toList) (hslash' : '/' ∉ ref'.container.toList) :
    ref.container = ref'.container := by
  have hpath := (pathOf_ok h).symm.trans (pathOf_ok h')
  have hlist := congrArg String.toList hpath
  simp only [String.toList_append, List.append_assoc, List.append_cancel_left_eq] at hlist
  exact String.toList_inj.mp (segments_injective hslash hslash' hlist).1

end Paths

/-! ## Isolation -/

section Isolation
variable {registry : List PartitionConfig} {partition other c d : String} {zone zone' : StorageZone}

/-- Pairs whose names do not clash have different containers, and no key in the container of the
one names an object in the container of the other. -/
theorem containers_isolated (hc : containerIn registry partition zone = .ok c)
    (hd : containerIn registry other zone' = .ok d)
    (hclash : ¬Clash registry partition zone other zone') :
    c ≠ d ∧ ∀ (store : PosixBlobStore) (ref ref' : ObjectRef), ref.container = c →
      ref'.container = d → ∀ path, store.pathOf ref = .ok path → store.pathOf ref' ≠ .ok path := by
  have hne : c ≠ d := fun h => hclash ((container_eq_iff hc hd).mp h)
  refine ⟨hne, ?_⟩
  rintro store ref ref' rfl rfl path hpath hpath'
  exact hne (container_of_pathOf hpath hpath' (containerIn_ok hc).2 (containerIn_ok hd).2)

end Isolation

/-! ## Sample configurations -/

/-- The registry of a service that started with these options. -/
def registryOf (options : PartitionFileOptions) : List PartitionConfig :=
  [options.partitionConfig "posix" "/data"]

/-- Both names given, as in the shipped configuration. -/
def shippedOptions : PartitionFileOptions where
  stagingContainer := "opendes-staging"
  persistentContainer := "opendes-persistent"

/-- One name for both zones. -/
def sharedOptions : PartitionFileOptions where
  stagingContainer := "files"
  persistentContainer := "files"

/-- The default name of another partition. -/
def takenOptions : PartitionFileOptions where
  stagingContainer := "p-staging"

theorem shipped_isolated : "opendes-staging" ≠ "p-staging" ∧
    ∀ (store : PosixBlobStore) (ref ref' : ObjectRef), ref.container = "opendes-staging" →
      ref'.container = "p-staging" → ∀ path, store.pathOf ref = .ok path →
        store.pathOf ref' ≠ .ok path :=
  have hgiven : containerIn (registryOf shippedOptions) "opendes" .staging =
      .ok "opendes-staging" := by decide +kernel
  have hdefault : containerIn (registryOf shippedOptions) "p" .staging = .ok "p-staging" := by
    decide +kernel
  containers_isolated hgiven hdefault (by decide +kernel)

/-- Options that pass the start, and two pairs with one container: partitions that differ in letter
case, the zones of one partition, and a name that is the default of another partition. -/
theorem containers_shared :
    (shippedOptions.validatePartitionContainers "posix" = "" ∧
      containerIn (registryOf shippedOptions) "p" .staging = .ok "p-staging" ∧
      containerIn (registryOf shippedOptions) "P" .staging = .ok "p-staging") ∧
    (sharedOptions.validatePartitionContainers "posix" = "" ∧
      containerIn (registryOf sharedOptions) "opendes" .staging = .ok "files" ∧
      containerIn (registryOf sharedOptions) "opendes" .persistent = .ok "files") ∧
    (takenOptions.validatePartitionContainers "posix" = "" ∧
      containerIn (registryOf takenOptions) "opendes" .staging = .ok "p-staging" ∧
      containerIn (registryOf takenOptions) "p" .staging = .ok "p-staging") := by
  decide +kernel

end FileService.Safety.Containers
