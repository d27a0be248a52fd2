import FileService.Protocols.CreateFollows

/-!
# Where a single creation reads and writes

A creation that runs alone works on the location record that its file source had
at the beginning, and aims at the persistent container under the same key. The
record stays as it was until the creation itself saves it. The claims it holds
are read off the history of its run.
-/
namespace FileService.Safety
open FileService.Common FileService.Domain FileService.Interaction FileService.App
open FileService.Infra FileService.Protocols CreatePhase

/-! ## Events of a creation

A claim begins with a successful `ClaimForWrite`, and ends with a successful
`MarkReady` or with a `ReleaseClaim`.
-/

section Events
variable {ι : Type}

/-- A `ClaimForWrite` that won the claim. -/
def claims : Event ports ι World → Bool
  | ⟨_, .metadata (.claimForWrite ..), .ok claim, _⟩ => claim.claimed
  | _ => false

/-- A `MarkReady` that succeeded. -/
def marks : Event ports ι World → Bool
  | ⟨_, .metadata (.markReady ..), .ok _, _⟩ => true
  | _ => false

/-- A `ReleaseClaim`, whatever its reply is. -/
def releases : Event ports ι World → Bool
  | ⟨_, .metadata (.releaseClaim ..), _, _⟩ => true
  | _ => false

/-- An event that begins or ends no claim. -/
def Neutral (e : Event ports ι World) : Prop :=
  claims e = false ∧ marks e = false ∧ releases e = false

theorem neutral_of_quiet {e : Event ports ι World} (h : e.op.Quiet) : Neutral e := by
  obtain ⟨i, op, r, w⟩ := e
  cases op with
  | metadata call =>
    cases call with
    | getById p id => exact ⟨rfl, rfl, rfl⟩
    | getLatestByFileSource p fs => exact ⟨rfl, rfl, rfl⟩
    | list p query => exact ⟨rfl, rfl, rfl⟩
    | _ => exact False.elim h
  | _ => exact ⟨rfl, rfl, rfl⟩

variable [DecidableEq ι]

/-- Thread `i` lies between its successful claim and its mark or release. -/
def registering (i : ι) : History ports ι World → Bool
  | [] => false
  | e :: h =>
    if e.thread = i then claims e || registering i h && !marks e && !releases e
    else registering i h

/-- Thread `i` has marked a record ready. -/
def marked (i : ι) (h : History ports ι World) : Bool :=
  h.any fun e => decide (e.thread = i) && marks e

/-- The event after `h` writes an object, or removes one for a thread that has not marked a
record ready: the copy and the rollback of a creation. -/
def writesTarget (e : Event ports ι World) (h : History ports ι World) : Bool :=
  match e.op with
  | .blobs _ (.copy ..) => true
  | .blobs _ (.put ..) => true
  | .blobs _ (.remove ..) => !marked e.thread h
  | _ => false

theorem writesTarget_of_quiet {e : Event ports ι World} {h : History ports ι World}
    (hq : e.op.Quiet) : writesTarget e h = false := by
  obtain ⟨i, op, r, w⟩ := e
  cases op with
  | blobs store call =>
    cases call with
    | put ref data options => exact False.elim hq
    | remove ref => exact False.elim hq
    | copy source target => exact False.elim hq
    | _ => rfl
  | _ => rfl

theorem registering_neutral {e : Event ports ι World} {h : History ports ι World} (hn : Neutral e)
    (i : ι) : registering i (e :: h) = registering i h := by
  obtain ⟨hclaims, hmarks, hreleases⟩ := hn
  simp [registering, hclaims, hmarks, hreleases]

theorem registering_of_ne {e : Event ports ι World} {h : History ports ι World} {i : ι}
    (hi : e.thread ≠ i) : registering i (e :: h) = registering i h := by
  simp [registering, hi]

theorem marked_cons {e : Event ports ι World} {h : History ports ι World} {i : ι}
    (hm : marked i h = true) : marked i (e :: h) = true := by
  simp only [marked, List.any_cons] at hm ⊢
  rw [hm, Bool.or_true]

end Events

/-! ## What a creation names -/

/-- The object that the location record of a file source names. -/
def named? (d : Deployment) (p fs : String) (w : World) : Option (StoreId × ObjectRef) :=
  match w.locations.byFileSource p fs with
  | none => none
  | some location =>
    match physicalRef location with
    | .ref ref => some (d.store p location.zone, ref)
    | _ => none

theorem named?_eq_some {d : Deployment} {p fs : String} {w : World} {store : StoreId}
    {ref : ObjectRef} : named? d p fs w = some (store, ref) ↔
      ∃ location, w.locations.byFileSource p fs = some location ∧
        physicalRef location = .ref ref ∧ d.store p location.zone = store := by
  unfold named?
  cases hlocation : w.locations.byFileSource p fs with
  | none => simp
  | some location =>
    cases href : physicalRef location with
    | ref ref' => simp [href, and_comm]
    | incomplete => simp [href]
    | notText => simp [href]

/-- A name that a call may get for the persistent container: the registry's, or the default
name when the registry cannot be asked. -/
def PersistentContainer (d : Deployment) (p container : String) : Prop :=
  containerOf p .persistent (World.partitionConfig d.registry p) = .ok container ∨
    defaultContainer p .persistent = .ok container

/-- The location record that a phase works on. -/
def location? : CreatePhase → Option FileLocation
  | .located _ location | .targeted _ location _ _ _ | .misplaced _ location
  | .ready _ location _ _ | .saved _ location _ _ => some location
  | _ => none

/-- The staging reference and the target of a phase. -/
def aim? : CreatePhase → Option (ObjectRef × ObjectRef)
  | .targeted _ _ source target _ | .ready _ _ source target | .saved _ _ source target =>
    some (source, target)
  | _ => none

/-- The target that a phase may still remove. -/
def doomed? : CreatePhase → Option ObjectRef
  | .aborting _ target => some target
  | _ => none

def isSaved : CreatePhase → Bool
  | .saved .. => true
  | _ => false

/-- `target` is where a registration of the location puts its object. -/
def TargetOf (d : Deployment) (p : String) (location : FileLocation) (source target : ObjectRef) :
    Prop :=
  physicalRef location = .ref source ∧
    ∃ container, PersistentContainer d p container ∧ target = { container, key := source.key }

/-- The phase agrees with the location record `start` that the file source had. -/
structure Tracks (d : Deployment) (p fs : String) (start : Option FileLocation) (φ : CreatePhase)
    (w : World) : Prop where
  unsaved : isSaved φ = false → w.locations.byFileSource p fs = start
  located : ∀ location, location? φ = some location → start = some location
  aimed : ∀ source target, aim? φ = some (source, target) →
    ∃ location, start = some location ∧ TargetOf d p location source target
  doomed : ∀ target, doomed? φ = some target →
    ∃ location source, start = some location ∧ TargetOf d p location source target

variable {d : Deployment} {p fs : String} {faults : World.Faults} {start : Option FileLocation}
variable {φ φ' : CreatePhase} {w w' : World} {op : Port} {r : op.Reply}

/-- The registry answers with its own entry or not at all. -/
theorem persistentContainer_of_reply {config : Result PartitionConfig} {container : String}
    (hexec : World.Exec d faults w (.partitionConfig p) config w')
    (h : containerOf p .persistent config = .ok container) : PersistentContainer d p container := by
  rcases hexec.outcome (by simp) with ⟨hr, -, -⟩ | ⟨uuid, rfl, -⟩ | ⟨hr, -, -⟩
  · cases Option.some.inj hr
    exact .inr h
  · exact .inl h
  · cases Option.some.inj hr
    exact .inr h

/-- A call that leaves the locations alone and goes to a phase that knows no more. -/
theorem Tracks.mono (hinv : Tracks d p fs start φ w) (hw : w'.locations = w.locations)
    (hsaved : isSaved φ' = isSaved φ)
    (hlocated : ∀ location, location? φ' = some location → location? φ = some location)
    (haimed : ∀ aim, aim? φ' = some aim → aim? φ = some aim)
    (hdoomed : ∀ target, doomed? φ' = some target →
      doomed? φ = some target ∨ ∃ source, aim? φ = some (source, target)) :
    Tracks d p fs start φ' w' where
  unsaved h := by
    rw [hw]
    exact hinv.unsaved (hsaved.symm.trans h)
  located location h := hinv.located location (hlocated location h)
  aimed source target h := hinv.aimed source target (haimed _ h)
  doomed target h := by
    rcases hdoomed target h with h | ⟨source, h⟩
    · exact hinv.doomed target h
    · obtain ⟨location, hstart, htarget⟩ := hinv.aimed source target h
      exact ⟨location, source, hstart, htarget⟩

/-- Every call of the creation keeps track of its location. -/
theorem Tracks.step (hinv : Tracks d p fs start φ w) (hexec : World.Exec d faults w op r w')
    (hstep : CreateStep d p fs φ op r φ') : Tracks d p fs start φ' w' := by
  have hquiet : op.Quiet → w'.locations = w.locations := fun hop => (hexec.quiet hop).locations
  cases hstep with
  | idle hop => exact hinv.mono (hquiet hop.1) rfl (fun _ => id) (fun _ => id) fun _ => .inl
  | found => exact hinv.mono (hquiet trivial) rfl nofun nofun nofun
  | unclaimed => exact hinv.mono (hquiet trivial) rfl nofun nofun nofun
  | claim => exact hinv.mono hexec.metadata_frame.1 rfl nofun nofun nofun
  | taken => exact hinv.mono hexec.metadata_frame.1 rfl nofun nofun nofun
  | refused => exact hinv.mono hexec.metadata_frame.1 rfl nofun nofun nofun
  | locate =>
    have hfound := hexec.findByFileSource_ok
    rw [hinv.unsaved rfl] at hfound
    constructor
    · intro _
      rw [hquiet trivial, hinv.unsaved rfl]
    · rintro _ ⟨⟩
      exact hfound
    · nofun
    · nofun
  | unlocated => exact hinv.mono (hquiet trivial) rfl nofun nofun nofun
  | @aim job location source container r hsource hcontainer =>
    have hstart := hinv.located location rfl
    constructor
    · intro _
      rw [hquiet trivial, hinv.unsaved rfl]
    · rintro _ ⟨⟩
      exact hstart
    · rintro _ _ ⟨⟩
      exact ⟨location, hstart, hsource, container, persistentContainer_of_reply hexec hcontainer,
        rfl⟩
    · nofun
  | misplace => exact hinv.mono (hquiet trivial) rfl (fun _ => id) nofun nofun
  | copy => exact hinv.mono hexec.blobs_frame.2.2 rfl (fun _ => id) (fun _ => id) nofun
  | put => exact hinv.mono hexec.blobs_frame.2.2 rfl (fun _ => id) (fun _ => id) nofun
  | reuse => exact hinv.mono (hquiet trivial) rfl (fun _ => id) (fun _ => id) nofun
  | yield => exact hinv.mono (hquiet trivial) rfl nofun nofun nofun
  | fallBack => exact hinv.mono (hquiet trivial) rfl nofun nofun nofun
  | giveWay => exact hinv.mono hexec.metadata_frame.1 rfl nofun nofun nofun
  | keep => exact hinv.mono (hquiet trivial) rfl nofun nofun nofun
  | abort =>
    refine hinv.mono (hquiet trivial) rfl nofun nofun ?_
    rintro _ ⟨⟩
    exact .inr ⟨_, rfl⟩
  | remove => exact hinv.mono hexec.blobs_frame.2.2 rfl nofun nofun nofun
  | release hgives =>
    exact hinv.mono hexec.metadata_frame.1 (by cases hgives <;> rfl) nofun nofun nofun
  | mark => exact hinv.mono hexec.metadata_frame.1 rfl (fun _ => id) (fun _ => id) nofun
  | create => exact hinv.mono hexec.metadata_frame.1 rfl (fun _ => id) (fun _ => id) nofun
  | markFailed => exact hinv.mono hexec.metadata_frame.1 rfl (fun _ => id) (fun _ => id) nofun
  | createFailed => exact hinv.mono hexec.metadata_frame.1 rfl (fun _ => id) (fun _ => id) nofun
  | leaseRelease => exact hinv.mono (hquiet trivial) rfl (fun _ => id) (fun _ => id) fun _ => .inl
  | save =>
    constructor
    · nofun
    · rintro _ ⟨⟩
      exact hinv.located _ rfl
    · rintro _ _ ⟨⟩
      exact hinv.aimed _ _ rfl
    · nofun
  | cleanUp => exact hinv.mono hexec.blobs_frame.2.2 rfl (fun _ => id) (fun _ => id) fun _ => .inl

theorem Tracks.tick (hinv : Tracks d p fs start φ w) (htick : World.Tick faults w w') :
    Tracks d p fs start φ w' :=
  hinv.mono (World.Tick.sameData htick).locations rfl (fun _ => id) (fun _ => id) fun _ => .inl

theorem tracks_start (w : World) :
    Tracks d p fs (w.locations.byFileSource p fs) .start w :=
  ⟨fun _ => rfl, nofun, nofun, nofun⟩

end FileService.Safety
