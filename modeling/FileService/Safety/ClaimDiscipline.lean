import FileService.Safety.Rollback
import FileService.Safety.SingleRegistrar

/-!
# What a creation does with its claim

A claim is open from the `ClaimForWrite` that won it to the `MarkReady` that
succeeds or the `ReleaseClaim` for its id and version. Every call may fail except
the release. A creation leaves an open claim behind exactly when what it reads
about the location and its container cannot be used.
-/
namespace FileService.Safety
open FileService.Common FileService.Domain FileService.Interaction FileService.App
open FileService.Infra FileService.Protocols CreatePhase

section Events
variable {ι : Type}

/-- The id and version that a `ClaimForWrite` won. -/
def claimOf? : Event ports ι World → Option (String × Int)
  | ⟨_, .metadata (.claimForWrite _ record), .ok claim, _⟩ =>
    if claim.claimed then some (record.id, claim.record.version) else none
  | _ => none

/-- The claim was marked ready or released by this event. -/
def finishes (claim : String × Int) : Event ports ι World → Bool
  | ⟨_, .metadata (.markReady _ id version _), .ok _, _⟩ => claim = (id, version)
  | ⟨_, .metadata (.releaseClaim _ id version), _, _⟩ => claim = (id, version)
  | _ => false

/-- The claim that is neither marked nor released yet. -/
def openClaim : History ports ι World → Option (String × Int)
  | [] => none
  | e :: h => (claimOf? e).or ((openClaim h).filter fun claim => !finishes claim e)

def releasesLease (e : Event ports ι World) : Bool :=
  match e.op with
  | .leases (.release ..) => true
  | _ => false

/-- What was read about the location names an object, and the container has a valid name. -/
def readsUsable (p : String) : Event ports ι World → Bool
  | ⟨_, .locations (.findByFileSource ..), .ok location, _⟩ =>
    match physicalRef location with
    | .ref _ => true
    | _ => false
  | ⟨_, .partitionConfig _, config, _⟩ => (containerOf p .persistent config).isOk
  | _ => true

variable {e : Event ports ι World} {h : History ports ι World}

theorem claimOf?_eq_none (hclaims : claims e = false) : claimOf? e = none := by
  obtain ⟨i, op, r, w⟩ := e
  cases op with
  | metadata call =>
    cases call with
    | claimForWrite p record =>
      cases r with
      | ok claim => exact if_neg (by simpa using show claim.claimed = false from hclaims)
      | error e => rfl
    | _ => rfl
  | _ => rfl

theorem finishes_neutral (hn : Neutral e) (claim : String × Int) : finishes claim e = false := by
  obtain ⟨i, op, r, w⟩ := e
  cases op with
  | metadata call =>
    cases call with
    | markReady p id version record =>
      cases r with
      | ok out => cases hn.2.1
      | error e => rfl
    | releaseClaim p id version => cases hn.2.2
    | _ => rfl
  | _ => rfl

theorem openClaim_neutral (hn : Neutral e) : openClaim (e :: h) = openClaim h := by
  rw [openClaim, claimOf?_eq_none hn.1]
  cases openClaim h with
  | none => rfl
  | some claim => simp [finishes_neutral hn]

theorem openClaim_of_unclaimed (hclaims : h.any claims = false) : openClaim h = none := by
  induction h with
  | nil => rfl
  | cons e h ih =>
    obtain ⟨he, hh⟩ := Bool.or_eq_false_iff.mp hclaims
    rw [openClaim, ih hh, claimOf?_eq_none he]
    rfl

theorem readsUsable_of_idle {p : String} (hop : Idle e.op) : readsUsable p e = true := by
  obtain ⟨i, op, r, w⟩ := e
  cases op with
  | locations call =>
    cases call with
    | findByFileSource q fs => exact absurd trivial hop.2
    | _ => rfl
  | partitionConfig q => exact absurd trivial hop.2
  | _ => rfl

theorem releasesLease_of_idle (hop : Idle e.op) : releasesLease e = false := by
  obtain ⟨i, op, r, w⟩ := e
  cases op with
  | leases call =>
    cases call with
    | release p key instanceId => exact absurd trivial hop.2
    | _ => rfl
  | _ => rfl

end Events

section Discipline
open World
variable {d : Deployment} {p fs : String} {φ φ' : CreatePhase} {h : History ports Unit World}
variable {w w' : World} {op : Port} {r : op.Reply}

/-- The claim of a phase. -/
def openOf (φ : CreatePhase) : Option (String × Int) :=
  (claim? φ).bind fun job => job.version.map (job.id, ·)

/-- The phases that are left with an open claim. -/
def Stuck : CreatePhase → Prop
  | .located job location => job.version ≠ none ∧ ∀ ref, physicalRef location ≠ .ref ref
  | .misplaced job _ => job.version ≠ none
  | _ => False

theorem openOf_of_mayExit (hφ : φ.MayExit) (hstuck : ¬Stuck φ) : openOf φ = none := by
  cases φ with
  | located job location =>
    rcases hφ with hversion | hunusable
    · simp [openOf, claim?, hversion]
    · have hversion : job.version = none := by
        by_contra hversion
        exact hstuck ⟨hversion, hunusable⟩
      simp [openOf, claim?, hversion]
  | misplaced job location => simp [openOf, claim?, not_not.mp hstuck]
  | holding job => simp [openOf, claim?, show job.version = none from hφ]
  | aborting job target => simp [openOf, claim?, show job.version = none from hφ]
  | closing job => simp [openOf, claim?, show job.version = none from hφ]
  | targeted job location source target done => exact False.elim hφ
  | yielding job id => exact False.elim hφ
  | _ => rfl

/-- The row of an open claim: still claiming under its id and version, or ready already. -/
def HeldRow (p fs : String) (claim : String × Int) (w : World) : Prop :=
  ∃ v, w.metadata.row p fs = some v ∧
    (v.state = .ready ∨ v.state = .claiming ∧ claim = (v.record.id, v.record.version))

/-- Nobody holds the file source: it can be claimed, or it has a ready record. -/
def Claimable (p fs : String) (w : World) : Prop :=
  ∀ v, w.metadata.row p fs = some v → v.state = .ready

/-- The claim of the phase is the open claim of the history. -/
structure Accounts (d : Deployment) (p fs : String) (φ : CreatePhase)
    (h : History ports Unit World) (w : World) : Prop where
  opened : openClaim h = openOf φ
  unclaimed : ∀ job, claim? φ = some job → job.version = none →
    d.backend = .remote ∧ h.any claims = false
  unstarted : φ = .start → h.any claims = false ∧ h.all (readsUsable p) = true
  held : ∀ claim, openOf φ = some claim → d.backend = .local ∧ p ≠ "" ∧ HeldRow p fs claim w
  freed : h.any claims = true → openOf φ = none → Claimable p fs w
  stuck : h.any claims = true → (h.all (readsUsable p) = false ↔ Stuck φ)
  ordered : (h.any claims = true → h.all (readsUsable p) = true) →
    ∀ e h', (e :: h') <:+ h → releasesLease e = true → openClaim h' = none

/-- The row is left alone or becomes ready. -/
def RowKept (p fs : String) (w w' : World) : Prop :=
  w'.metadata.row p fs = w.metadata.row p fs ∨
    ∃ v, w'.metadata.row p fs = some v ∧ v.state = .ready

theorem RowKept.heldRow {claim : String × Int} (hrow : RowKept p fs w w')
    (hheld : HeldRow p fs claim w) : HeldRow p fs claim w' := by
  rcases hrow with hsame | ⟨v, hv, hready⟩
  · obtain ⟨v, hv, hstate⟩ := hheld
    exact ⟨v, hsame.trans hv, hstate⟩
  · exact ⟨v, hv, .inl hready⟩

theorem RowKept.claimable (hrow : RowKept p fs w w') (hfree : Claimable p fs w) :
    Claimable p fs w' := by
  intro v hv
  rcases hrow with hsame | ⟨v', hv', hready⟩
  · exact hfree v (hsame.symm.trans hv)
  · cases hv.symm.trans hv'
    exact hready

variable {e : Event ports Unit World}

/-- An event that neither begins nor finishes a claim. -/
theorem Accounts.keep (hinv : Accounts d p fs φ h w) (hn : Neutral e) (hopen : openOf φ' = openOf φ)
    (hunclaimed : ∀ job, claim? φ' = some job → job.version = none →
      d.backend = .remote ∧ h.any claims = false)
    (hrow : h.any claims = true → RowKept p fs w w')
    (hstuck : h.any claims = true → ((e :: h).all (readsUsable p) = false ↔ Stuck φ'))
    (hstart : φ' = .start → φ = .start ∧ readsUsable p e = true := by rintro ⟨⟩)
    (hlease : releasesLease e = true → φ.MayExit := by rintro ⟨⟩) :
    Accounts d p fs φ' (e :: h) w' := by
  have hclaims : (e :: h).any claims = h.any claims := by
    rw [List.any_cons, hn.1, Bool.false_or]
  have hordered : (h.any claims = true → (e :: h).all (readsUsable p) = true) →
      h.any claims = true → h.all (readsUsable p) = true := fun husable hclaimed =>
    (Bool.and_eq_true_iff.mp (husable hclaimed)).2
  constructor
  · rw [openClaim_neutral hn, hopen]
    exact hinv.opened
  · rw [hclaims]
    exact hunclaimed
  · intro hφ
    obtain ⟨hφ, hread⟩ := hstart hφ
    rw [hclaims, List.all_cons, hread]
    exact hinv.unstarted hφ
  · rw [hopen]
    intro claim hclaim
    obtain ⟨hlocal, hp, hheld⟩ := hinv.held claim hclaim
    have hclaimed : h.any claims = true := by
      rw [← Bool.not_eq_false]
      intro hunclaimed
      rw [← hinv.opened, openClaim_of_unclaimed hunclaimed] at hclaim
      cases hclaim
    exact ⟨hlocal, hp, (hrow hclaimed).heldRow hheld⟩
  · rw [hclaims, hopen]
    exact fun hclaimed hnone => (hrow hclaimed).claimable (hinv.freed hclaimed hnone)
  · rw [hclaims]
    exact hstuck
  · rw [hclaims]
    intro husable e' h' hsuffix he'
    rcases List.suffix_cons_iff.mp hsuffix with heq | hsuffix
    · cases heq
      rw [hinv.opened]
      cases hclaimed : h.any claims with
      | false =>
        rw [← hinv.opened]
        exact openClaim_of_unclaimed hclaimed
      | true =>
        refine openOf_of_mayExit (hlease he') fun hs => ?_
        have hunusable := (hinv.stuck hclaimed).mpr hs
        rw [hordered husable hclaimed] at hunusable
        cases hunusable
    · exact hinv.ordered (hordered husable) e' h' hsuffix he'

/-- What was read is usable, and the phase is as stuck as before. -/
theorem Accounts.usable (hinv : Accounts d p fs φ h w) (hread : readsUsable p e = true)
    (hstuck : Stuck φ' ↔ Stuck φ) (hclaimed : h.any claims = true) :
    (e :: h).all (readsUsable p) = false ↔ Stuck φ' := by
  rw [List.all_cons, hread, Bool.true_and, hstuck]
  exact hinv.stuck hclaimed

/-- The claim is marked ready or released. -/
theorem Accounts.finish (hinv : Accounts d p fs φ h w) {claim : String × Int}
    (hclaim : openOf φ = some claim) (hfinish : finishes claim e = true)
    (hclaims : claims e = false) (hφ : claim? φ' = none) (hfree : Claimable p fs w')
    (hread : readsUsable p e = true) (hstuck : ¬Stuck φ ∧ ¬Stuck φ')
    (hlease : releasesLease e = false) (hstart : φ' ≠ .start := by rintro ⟨⟩) :
    Accounts d p fs φ' (e :: h) w' := by
  have hany : (e :: h).any claims = h.any claims := by
    rw [List.any_cons, hclaims, Bool.false_or]
  have hopen : openOf φ' = none := by simp [openOf, hφ]
  constructor
  · rw [hopen, openClaim, claimOf?_eq_none hclaims, hinv.opened, hclaim]
    simp [hfinish]
  · intro job hjob
    rw [hφ] at hjob
    cases hjob
  · exact fun h => absurd h hstart
  · intro claim hclaim
    rw [hopen] at hclaim
    cases hclaim
  · exact fun _ _ => hfree
  · rw [hany]
    exact hinv.usable hread (iff_of_false hstuck.2 hstuck.1)
  · rw [hany]
    intro husable e' h' hsuffix he'
    rcases List.suffix_cons_iff.mp hsuffix with heq | hsuffix
    · cases heq
      rw [hlease] at he'
      cases he'
    · exact hinv.ordered (fun hclaimed => (Bool.and_eq_true_iff.mp (husable hclaimed)).2)
        e' h' hsuffix he'

/-- A release that is not lost gives the file source free. -/
theorem claimable_of_releaseClaim {id : String} {version : Int} {r : Result Unit}
    (hlocal : d.backend = .local) (hp : p ≠ "") (hheld : HeldRow p fs (id, version) w)
    (h : Exec d .butRelease w (.metadata (.releaseClaim p id version)) r w') :
    Claimable p fs w' := by
  have hw : w'.metadata = (w.metadata.releaseClaim p id version).2 := by
    rcases h.outcome (by simp) with ⟨-, hfault, -⟩ | ⟨uuid, -, rfl⟩ | ⟨-, hfault, -⟩
    · cases hfault
    · simp only [apply, hlocal, localCall]
    · cases hfault
  obtain ⟨v, hv, hready | ⟨hclaiming, hclaim⟩⟩ := hheld
  · intro v' hv'
    rcases h.releaseClaim hlocal with ⟨hsame, -⟩ | ⟨freed, hstate, -, -, hfreed, hrows⟩
    · rw [hsame] at hv'
      cases hv.symm.trans hv'
      exact hready
    · rw [hrows] at hv'
      split_ifs at hv'
      cases hv.symm.trans hv'
      exact hready
  · cases hclaim
    intro v' hv'
    rw [hw, InMemoryMetadataRepository.releaseClaim_eq_ok hp hv hclaiming,
      if_pos ⟨rfl, rfl⟩] at hv'
    cases hv'

/-- A mark makes the row ready, or leaves it. -/
theorem rowKept_of_markReady {id : String} {version : Int} {record : FileMetadataRecord}
    {r : Result FileMetadataRecord} {faults : Faults} (hfs : record.fileSource = fs)
    (hlocal : d.backend = .local)
    (h : Exec d faults w (.metadata (.markReady p id version record)) r w') :
    RowKept p fs w w' ∧ (r.isOk = true → Claimable p fs w') := by
  subst hfs
  rcases h.markReady hlocal with ⟨hw, e, rfl⟩ | ⟨v, hv, -, -, -, -, hrows⟩
  · exact ⟨.inl (by rw [hw]), nofun⟩
  · have hrow := hrows p record.fileSource
    rw [if_pos ⟨rfl, rfl⟩] at hrow
    refine ⟨.inr ⟨_, hrow, rfl⟩, fun _ v' hv' => ?_⟩
    cases hrow.symm.trans hv'
    rfl

theorem Accounts.holds (hinv : Accounts d p fs φ h w) {job : Holding} {version : Int}
    (hφ : claim? φ = some job) (hversion : job.version = some version) :
    openOf φ = some (job.id, version) ∧ d.backend = .local ∧ p ≠ "" ∧
      HeldRow p fs (job.id, version) w := by
  have hclaim : openOf φ = some (job.id, version) := by simp [openOf, hφ, hversion]
  exact ⟨hclaim, hinv.held _ hclaim⟩

theorem Accounts.version_ne_none (hinv : Accounts d p fs φ h w) {job : Holding}
    (hφ : claim? φ = some job) (hclaimed : h.any claims = true) : job.version ≠ none := by
  intro hnone
  rw [(hinv.unclaimed job hφ hnone).2] at hclaimed
  cases hclaimed

theorem Accounts.all_usable (hinv : Accounts d p fs φ h w) (hclaimed : h.any claims = true)
    (hφ : ¬Stuck φ) : h.all (readsUsable p) = true := by
  rw [← Bool.not_eq_false]
  exact fun hunusable => hφ ((hinv.stuck hclaimed).mp hunusable)

/-- The claim is won. -/
theorem Accounts.claim {record : FileMetadataRecord} {claim : MetadataClaim}
    (hinv : Accounts d p record.fileSource .start h w) (hclaim : claim.claimed = true)
    (hexec : Exec d .butRelease w (.metadata (.claimForWrite p record)) (.ok claim) w') :
    Accounts d p record.fileSource (.holding ⟨record.id, some claim.record.version⟩)
      (⟨(), .metadata (.claimForWrite p record), .ok claim, w⟩ :: h) w' := by
  have hlocal := hexec.claim_local
  obtain ⟨hunclaimed, husable⟩ := hinv.unstarted rfl
  rcases hexec.claimForWrite hlocal with ⟨-, hrefused⟩ | ⟨hp, -, hrows, hr | ⟨-, e, hr⟩⟩
  · rw [(hrefused claim rfl).1] at hclaim
    cases hclaim
  · cases hr
    constructor
    · rfl
    · rintro _ ⟨⟩ ⟨⟩
    · nofun
    · rintro _ ⟨⟩
      exact ⟨hlocal, hp, _, by rw [hrows, if_pos ⟨rfl, rfl⟩], .inr ⟨rfl, rfl⟩⟩
    · nofun
    · intro _
      rw [List.all_cons, husable]
      exact iff_of_false nofun id
    · intro _ e' h' hsuffix he'
      rcases List.suffix_cons_iff.mp hsuffix with heq | hsuffix
      · cases heq
        cases he'
      · exact hinv.ordered (fun _ => husable) e' h' hsuffix he'
  · cases hr

/-- Every call of a creation keeps account of its claim. -/
theorem Accounts.step (hinv : Accounts d p fs φ h w) (hexec : Exec d .butRelease w op r w')
    (hstep : CreateStep d p fs φ op r φ') : Accounts d p fs φ' (⟨(), op, r, w⟩ :: h) w' := by
  have hneutral : op.Quiet → Neutral (⟨(), op, r, w⟩ : Event ports Unit World) :=
    fun hop => neutral_of_quiet hop
  have hrow : op.Quiet → h.any claims = true → RowKept p fs w w' := fun hop _ =>
    .inl (by rw [(hexec.quiet hop).metadata])
  have hclaimant := hinv.unclaimed
  cases hstep with
  | idle hop =>
    refine hinv.keep (hneutral hop.1) rfl hclaimant (hrow hop.1)
      (hinv.usable (readsUsable_of_idle hop) Iff.rfl) (⟨·, readsUsable_of_idle hop⟩) fun hlease => ?_
    rw [releasesLease_of_idle hop] at hlease
    cases hlease
  | found =>
    exact hinv.keep (hneutral trivial) rfl (by rintro _ ⟨⟩) (hrow trivial)
      (hinv.usable rfl Iff.rfl)
  | unclaimed hclaim =>
    refine hinv.keep (hneutral trivial) rfl ?_ (hrow trivial) (hinv.usable rfl Iff.rfl)
    rintro _ ⟨⟩ -
    have hatomic := serviceMachine_honours d .butRelease w .metadataCapabilities _ w' hexec
    refine ⟨?_, (hinv.unstarted rfl).1⟩
    cases hb : d.backend with
    | «local» =>
      rw [hatomic.mpr hb] at hclaim
      cases hclaim
    | remote => rfl
  | @claim record r hfs hclaim =>
    subst hfs
    exact hinv.claim hclaim hexec
  | taken hfs hclaim =>
    refine hinv.keep ⟨hclaim, rfl, rfl⟩ rfl (by rintro _ ⟨⟩) (fun hclaimed => ?_)
      (hinv.usable rfl Iff.rfl)
    rw [(hinv.unstarted rfl).1] at hclaimed
    cases hclaimed
  | @refused record r hfs hclaim =>
    refine hinv.keep ⟨?_, rfl, rfl⟩ rfl (by rintro _ ⟨⟩) (fun hclaimed => ?_)
      (hinv.usable rfl Iff.rfl) (⟨·, rfl⟩)
    · cases r with
      | ok claim => exact hclaim claim rfl
      | error e => rfl
    · rw [(hinv.unstarted rfl).1] at hclaimed
      cases hclaimed
  | @locate job location =>
    refine hinv.keep (hneutral trivial) rfl hclaimant (hrow trivial) fun hclaimed => ?_
    have hversion : job.version ≠ none := hinv.version_ne_none rfl hclaimed
    rw [List.all_cons, hinv.all_usable hclaimed id, Bool.and_true]
    cases href : physicalRef location <;> simp [readsUsable, Stuck, href, hversion]
  | unlocated =>
    exact hinv.keep (hneutral trivial) rfl hclaimant (hrow trivial) (hinv.usable rfl Iff.rfl)
  | aim hsource hcontainer =>
    refine hinv.keep (hneutral trivial) rfl hclaimant (hrow trivial) (hinv.usable ?_ ?_)
    · simp [readsUsable, hcontainer]
    · simp [Stuck, hsource]
  | @misplace job location r e hcontainer =>
    refine hinv.keep (hneutral trivial) rfl hclaimant (hrow trivial) fun hclaimed => ?_
    have hversion : job.version ≠ none := hinv.version_ne_none rfl hclaimed
    simp [readsUsable, hcontainer, Stuck, hversion]
  | copy =>
    exact hinv.keep ⟨rfl, rfl, rfl⟩ rfl hclaimant (fun _ => .inl (by rw [hexec.blobs_frame.1]))
      (hinv.usable rfl Iff.rfl)
  | put =>
    exact hinv.keep ⟨rfl, rfl, rfl⟩ rfl hclaimant (fun _ => .inl (by rw [hexec.blobs_frame.1]))
      (hinv.usable rfl Iff.rfl)
  | reuse =>
    exact hinv.keep (hneutral trivial) rfl hclaimant (hrow trivial) (hinv.usable rfl Iff.rfl)
  | yield =>
    exact hinv.keep (hneutral trivial) rfl hclaimant (hrow trivial) (hinv.usable rfl Iff.rfl)
  | fallBack hversion =>
    exact hinv.keep (hneutral trivial) (by simp [openOf, claim?, hversion]) (by rintro _ ⟨⟩)
      (hrow trivial) (hinv.usable rfl Iff.rfl)
  | giveWay hversion =>
    obtain ⟨hclaim, hlocal, hp, hheld⟩ := hinv.holds rfl hversion
    exact hinv.finish hclaim (decide_eq_true rfl) rfl rfl
      (claimable_of_releaseClaim hlocal hp hheld hexec) rfl ⟨id, id⟩ rfl
  | keep =>
    exact hinv.keep (hneutral trivial) rfl hclaimant (hrow trivial) (hinv.usable rfl Iff.rfl)
  | abort =>
    exact hinv.keep (hneutral trivial) rfl hclaimant (hrow trivial) (hinv.usable rfl Iff.rfl)
  | remove =>
    exact hinv.keep ⟨rfl, rfl, rfl⟩ rfl hclaimant (fun _ => .inl (by rw [hexec.blobs_frame.1]))
      (hinv.usable rfl Iff.rfl)
  | release hφ hversion =>
    obtain ⟨hclaim, hlocal, hp, hheld⟩ := hinv.holds (claim?_of_givesUp hφ) hversion
    exact hinv.finish hclaim (decide_eq_true rfl) rfl rfl
      (claimable_of_releaseClaim hlocal hp hheld hexec) rfl ⟨by cases hφ <;> exact id, id⟩ rfl
  | mark hfs hid hversion hout =>
    obtain ⟨hclaim, hlocal, -⟩ := hinv.holds rfl hversion
    exact hinv.finish hclaim (decide_eq_true rfl) rfl rfl
      ((rowKept_of_markReady hfs hlocal hexec).2 rfl) rfl ⟨id, id⟩ rfl
  | create hfs hid hversion =>
    have hremote := (hclaimant _ rfl hversion).1
    exact hinv.keep ⟨rfl, rfl, rfl⟩ (by simp [openOf, claim?, hversion]) (by rintro _ ⟨⟩)
      (fun _ => .inl (by rw [hexec.remote_frame hremote])) (hinv.usable rfl Iff.rfl)
  | markFailed hfs hid hversion =>
    obtain ⟨hclaim, hlocal, -⟩ := hinv.holds rfl hversion
    exact hinv.keep ⟨rfl, rfl, rfl⟩ rfl hclaimant
      (fun _ => (rowKept_of_markReady hfs hlocal hexec).1) (hinv.usable rfl Iff.rfl)
  | createFailed hfs hid hversion =>
    have hremote := (hclaimant _ rfl hversion).1
    exact hinv.keep ⟨rfl, rfl, rfl⟩ rfl hclaimant
      (fun _ => .inl (by rw [hexec.remote_frame hremote])) (hinv.usable rfl Iff.rfl)
  | leaseRelease hφ =>
    exact hinv.keep (hneutral trivial) rfl hclaimant (hrow trivial) (hinv.usable rfl Iff.rfl)
      (⟨·, rfl⟩) fun _ => hφ
  | save =>
    exact hinv.keep ⟨rfl, rfl, rfl⟩ rfl (by rintro _ ⟨⟩)
      (fun _ => .inl (by rw [hexec.locations_frame.1])) (hinv.usable rfl Iff.rfl)
  | cleanUp =>
    exact hinv.keep ⟨rfl, rfl, rfl⟩ rfl (by rintro _ ⟨⟩)
      (fun _ => .inl (by rw [hexec.blobs_frame.1])) (hinv.usable rfl Iff.rfl)

theorem Accounts.tick {faults : Faults} (hinv : Accounts d p fs φ h w) (htick : Tick faults w w') :
    Accounts d p fs φ h w' := by
  have hrow : w'.metadata.row p fs = w.metadata.row p fs := by
    rw [(Tick.sameData htick).metadata]
  refine ⟨hinv.opened, hinv.unclaimed, hinv.unstarted, fun claim hclaim => ?_, fun hclaimed hopen =>
    (RowKept.claimable (.inl hrow)) (hinv.freed hclaimed hopen), hinv.stuck, hinv.ordered⟩
  obtain ⟨hlocal, hp, hheld⟩ := hinv.held claim hclaim
  exact ⟨hlocal, hp, RowKept.heldRow (.inl hrow) hheld⟩

theorem accounts_start (w : World) : Accounts d p fs .start [] w where
  opened := rfl
  unclaimed := nofun
  unstarted _ := ⟨rfl, rfl⟩
  held := nofun
  freed := nofun
  stuck := nofun
  ordered _ _ _ hsuffix := absurd hsuffix.length_le (by simp)

theorem openOf_of_stuck (hstuck : Stuck φ) : openOf φ ≠ none := by
  cases φ with
  | located job location => simpa [openOf, claim?] using hstuck.1
  | misplaced job location => simpa [openOf, claim?, Stuck] using hstuck
  | _ => exact False.elim hstuck

/-- What a creation owes to others: no claim of it stays open, the lease goes after the claim,
and the file source can be registered again. -/
structure Disciplined (p fs : String) (h : History ports Unit World) (w : World) : Prop where
  closed : openClaim h = none
  ordered : ∀ e h', (e :: h') <:+ h → releasesLease e = true → openClaim h' = none
  retriable : h.any claims = true → Claimable p fs w

/-- A creation is disciplined if and only if it wins no claim, or can use what it reads about the
location of the file and its persistent container. -/
theorem createFileMetadata_disciplined_iff {polls : Nat} {u : UseCasePorts} {caller : CallerContext}
    {record : FileMetadataRecord} {out : Except Exit String}
    (hrun : (serviceMachine d .butRelease).Runs
      (createFileMetadata polls u caller record).run w out h w') :
    Disciplined caller.partition record.fileSource h w' ↔
      (h.any claims = true → h.all (readsUsable caller.partition) = true) := by
  have hkeep : Machine.Preserves (serviceMachine d .butRelease)
      (fun _ : Unit => CreateStep d caller.partition record.fileSource) (fun _ => True)
      fun φ : Unit → CreatePhase => Accounts d caller.partition record.fileSource (φ ()) := by
    constructor
    · intro φ h w i op r w' φ' hinv hexec hstep _
      rw [Function.update_self]
      exact hinv.step hexec hstep
    · intro φ h w w' hinv htick
      exact hinv.tick htick
  obtain ⟨φ, hends, hlast⟩ := hrun.follows (serviceMachine_honours d .butRelease) hkeep
    (fun _ => trivial) (createFileMetadata_follows d polls u caller record) (accounts_start w)
    trivial
  have hexit : φ.MayExit := by
    cases out with
    | ok id => exact mayExit_of_returns hends
    | error e => exact hends
  constructor
  · intro hdisciplined hclaimed
    refine hlast.all_usable hclaimed fun hstuck => openOf_of_stuck hstuck ?_
    rw [← hlast.opened]
    exact hdisciplined.closed
  · intro husable
    have hopen : openOf φ = none := by
      refine openOf_of_mayExit hexit fun hstuck => ?_
      cases hclaimed : h.any claims with
      | false =>
        refine openOf_of_stuck hstuck ?_
        rw [← hlast.opened]
        exact openClaim_of_unclaimed hclaimed
      | true =>
        have hunusable := (hlast.stuck hclaimed).mpr hstuck
        rw [husable hclaimed] at hunusable
        cases hunusable
    exact ⟨hlast.opened.trans hopen, hlast.ordered husable, fun hclaimed =>
      hlast.freed hclaimed hopen⟩

/-- The stat of the moved object fails once. -/
def abortedRun := sampleRun .butRelease sampleCreation migratedWorld
  (doneCalls 11 ++ .lost {} :: doneCalls 20)

theorem aborted_creation_disciplined : Disciplined sampleCaller.partition sampleRecord.fileSource
    abortedRun.1 abortedRun.2.state := by
  obtain ⟨out, -, hrun⟩ := runs_sampleRun .butRelease sampleCreation migratedWorld
    (doneCalls 11 ++ .lost {} :: doneCalls 20) isError (by decide +kernel)
  have husable : abortedRun.1.all (readsUsable sampleCaller.partition) = true := by decide +kernel
  exact (createFileMetadata_disciplined_iff hrun).mpr fun _ => husable

/-- The sample file with a location record that does not name its object. -/
def unplacedWorld : World :=
  sampleWorld { sampleLocation .staging "p-staging" with extra := .object [] }
    ⟨"p-staging", sampleKey, none⟩

def isClaiming (v : Version) : Bool := v.state = .claiming

/-- The claim stays behind when the location record cannot be read. -/
theorem unplaced_creation_leaks_claim : ∃ outcomes out,
    (serviceMachine sampleDeployment .butRelease).Runs sampleCreation unplacedWorld out
      (sampleRun .butRelease sampleCreation unplacedWorld outcomes).1
      (sampleRun .butRelease sampleCreation unplacedWorld outcomes).2.state ∧
    isError out = true ∧
    (openClaim (sampleRun .butRelease sampleCreation unplacedWorld outcomes).1).isSome = true ∧
    ((sampleRun .butRelease sampleCreation unplacedWorld outcomes).2.state.metadata.row
      sampleCaller.partition sampleRecord.fileSource).any isClaiming = true := by
  obtain ⟨out, herror, hrun⟩ := runs_sampleRun .butRelease sampleCreation unplacedWorld
    (doneCalls 20) isError (by decide +kernel)
  exact ⟨_, out, hrun, herror, by decide +kernel⟩

end Discipline

end FileService.Safety
