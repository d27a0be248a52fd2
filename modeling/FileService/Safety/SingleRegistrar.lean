import FileService.Domain.Schedule
import FileService.Protocols.CreateFollows
import FileService.Safety.CreateTracking

/-!
# One registrar for each file source

Any number of creations of one file source run over a repository with atomic
claims; a failed call has no effect. The claiming row of the file source belongs
to the one creation that lies between its claim and its mark or release, and
every creation that returns names the same record.
-/
namespace FileService.Safety
open FileService.Common FileService.Domain FileService.Interaction FileService.App
open FileService.Infra FileService.Protocols CreatePhase

/-- What a creation holds in a phase. -/
def claim? : CreatePhase → Option Holding
  | .holding job | .located job _ | .targeted job _ _ _ _ | .aborting job _ | .closing job
  | .yielding job _ | .misplaced job _ => some job
  | _ => none

/-- The id of the ready record that a creation knows of in a phase. -/
def settled? : CreatePhase → Option String
  | .returning id | .yielding _ id | .ready id _ _ _ | .saved id _ _ _ => some id
  | _ => none

def isCreated : CreatePhase → Bool
  | .ready .. | .saved .. => true
  | _ => false

/-- The row of the file source belongs to this claim. -/
def ClaimedBy (p fs : String) (job : Holding) (w : World) : Prop :=
  ∃ v, w.metadata.row p fs = some v ∧ v.state = .claiming ∧
    job = ⟨v.record.id, some v.record.version⟩

/-- The file source has a ready record with this id. -/
def ReadyAs (p fs id : String) (w : World) : Prop :=
  ∃ v, w.metadata.row p fs = some v ∧ v.state = .ready ∧ v.record.id = id

theorem ClaimedBy.not_readyAs {p fs id : String} {job : Holding} {w : World}
    (h : ClaimedBy p fs job w) : ¬ReadyAs p fs id w := by
  obtain ⟨v, hrow, hstate, -⟩ := h
  rintro ⟨v', hrow', hstate', -⟩
  cases hrow.symm.trans hrow'
  rw [hstate] at hstate'
  cases hstate'

variable {ι : Type} [DecidableEq ι] {p fs : String} {φ : ι → CreatePhase}
variable {h : History ports ι World} {w w' : World}

/-- Phases, history and row agree on who registers the file source. -/
structure Exclusive (p fs : String) (φ : ι → CreatePhase) (h : History ports ι World) (w : World) :
    Prop where
  claimed : ∀ i job, claim? (φ i) = some job → ClaimedBy p fs job w
  single : ∀ i j, (claim? (φ i)).isSome → (claim? (φ j)).isSome → i = j
  settled : ∀ i id, settled? (φ i) = some id → ReadyAs p fs id w
  registrar : ∀ i, registering i h = (claim? (φ i)).isSome
  created : ∀ i, isCreated (φ i) = true → marked i h = true
  writes : ∀ e h', (e :: h') <:+ h → writesTarget e h' = true → registering e.thread h' = true

theorem writes_cons {e : Event ports ι World}
    (hwrites : ∀ e h', (e :: h') <:+ h → writesTarget e h' = true → registering e.thread h' = true)
    (he : writesTarget e h = true → registering e.thread h = true) :
    ∀ e' h', (e' :: h') <:+ (e :: h) → writesTarget e' h' = true →
      registering e'.thread h' = true := by
  intro e' h' hsuffix hwrite
  rcases List.suffix_cons_iff.mp hsuffix with heq | hsuffix
  · cases heq
    exact he hwrite
  · exact hwrites e' h' hsuffix hwrite

/-- A step that leaves the row and the claims alone. -/
theorem Exclusive.neutral (hinv : Exclusive p fs φ h w) {i : ι} {φ' : CreatePhase} {op : Port}
    {r : op.Reply} (hrow : w'.metadata.row p fs = w.metadata.row p fs)
    (hn : Neutral (⟨i, op, r, w⟩ : Event ports ι World)) (hclaim : claim? φ' = claim? (φ i))
    (hsettled : ∀ id, settled? φ' = some id → ReadyAs p fs id w)
    (hcreated : isCreated φ' = true → isCreated (φ i) = true)
    (hwrite : writesTarget (⟨i, op, r, w⟩ : Event ports ι World) h = true →
      (claim? (φ i)).isSome = true) :
    Exclusive p fs (Function.update φ i φ') (⟨i, op, r, w⟩ :: h) w' := by
  have hready : ∀ id, ReadyAs p fs id w → ReadyAs p fs id w' := by
    rintro id ⟨v, hv, hstate, hid⟩
    exact ⟨v, hrow.trans hv, hstate, hid⟩
  have hphase : ∀ j, claim? (Function.update φ i φ' j) = claim? (φ j) := by
    intro j
    by_cases hj : j = i
    · subst hj
      rw [Function.update_self, hclaim]
    · rw [Function.update_of_ne hj]
  refine ⟨fun j job hj => ?_, fun j k hj hk => ?_, fun j id hj => ?_, fun j => ?_, fun j hj => ?_,
    writes_cons hinv.writes fun he => ?_⟩
  · obtain ⟨v, hv, hstate, hjob⟩ := hinv.claimed j job (by rwa [hphase] at hj)
    exact ⟨v, hrow.trans hv, hstate, hjob⟩
  · rw [hphase] at hj hk
    exact hinv.single j k hj hk
  · by_cases hji : j = i
    · subst hji
      rw [Function.update_self] at hj
      exact hready id (hsettled id hj)
    · rw [Function.update_of_ne hji] at hj
      exact hready id (hinv.settled j id hj)
  · rw [registering_neutral hn, hphase]
    exact hinv.registrar j
  · refine marked_cons (hinv.created j ?_)
    by_cases hji : j = i
    · subst hji
      rw [Function.update_self] at hj
      exact hcreated hj
    · rwa [Function.update_of_ne hji] at hj
  · rw [hinv.registrar]
    exact hwrite he

/-- Thread `i` claims the free row. -/
theorem Exclusive.claim (hinv : Exclusive p fs φ h w) {i : ι} {job : Holding} {op : Port}
    {r : op.Reply} (hfree : w.metadata.row p fs = none) (hclaim : ClaimedBy p fs job w')
    (he : claims (⟨i, op, r, w⟩ : Event ports ι World) = true)
    (hwrite : writesTarget (⟨i, op, r, w⟩ : Event ports ι World) h = false) :
    Exclusive p fs (Function.update φ i (.holding job)) (⟨i, op, r, w⟩ :: h) w' := by
  have hnone : ∀ j, claim? (φ j) = none := by
    intro j
    cases hj : claim? (φ j) with
    | none => rfl
    | some job =>
      obtain ⟨v, hv, -⟩ := hinv.claimed j job hj
      rw [hfree] at hv
      cases hv
  have hunsettled : ∀ j, settled? (φ j) = none := by
    intro j
    cases hj : settled? (φ j) with
    | none => rfl
    | some id =>
      obtain ⟨v, hv, -⟩ := hinv.settled j id hj
      rw [hfree] at hv
      cases hv
  have hself : ∀ j, (claim? (Function.update φ i (.holding job) j)).isSome = true → j = i := by
    intro j hj
    by_contra hji
    rw [Function.update_of_ne hji, hnone j] at hj
    cases hj
  refine ⟨fun j job' hj => ?_, fun j k hj hk => (hself j hj).trans (hself k hk).symm,
    fun j id hj => ?_, fun j => ?_, fun j hj => ?_, writes_cons hinv.writes fun hw => ?_⟩
  · obtain rfl := hself j (by rw [hj]; rfl)
    rw [Function.update_self] at hj
    cases hj
    exact hclaim
  · by_cases hji : j = i
    · subst hji
      rw [Function.update_self] at hj
      cases hj
    · rw [Function.update_of_ne hji, hunsettled j] at hj
      cases hj
  · by_cases hji : j = i
    · subst hji
      rw [Function.update_self]
      simp [registering, he, claim?]
    · rw [Function.update_of_ne hji, registering_of_ne (Ne.symm hji)]
      exact hinv.registrar j
  · refine marked_cons (hinv.created j ?_)
    by_cases hji : j = i
    · subst hji
      rw [Function.update_self] at hj
      cases hj
    · rwa [Function.update_of_ne hji] at hj
  · rw [hwrite] at hw
    cases hw

/-- Thread `i`, the registrar, gives the row up or marks it ready. -/
theorem Exclusive.finish (hinv : Exclusive p fs φ h w) {i : ι} {φ' : CreatePhase} {op : Port}
    {r : op.Reply} (hi : (claim? (φ i)).isSome = true) (hclaim : claim? φ' = none)
    (hsettled : ∀ id, settled? φ' = some id → ReadyAs p fs id w')
    (hclaims : claims (⟨i, op, r, w⟩ : Event ports ι World) = false)
    (he : marks (⟨i, op, r, w⟩ : Event ports ι World) = true ∨
      isCreated φ' = false ∧ releases (⟨i, op, r, w⟩ : Event ports ι World) = true)
    (hwrite : writesTarget (⟨i, op, r, w⟩ : Event ports ι World) h = false) :
    Exclusive p fs (Function.update φ i φ') (⟨i, op, r, w⟩ :: h) w' := by
  have hnone : ∀ j, claim? (Function.update φ i φ' j) = none := by
    intro j
    by_cases hji : j = i
    · subst hji
      rw [Function.update_self, hclaim]
    · rw [Function.update_of_ne hji]
      cases hj : claim? (φ j) with
      | none => rfl
      | some job => exact absurd (hinv.single j i (by rw [hj]; rfl) hi) hji
  obtain ⟨job, hjob⟩ := Option.isSome_iff_exists.mp hi
  refine ⟨fun j job' hj => ?_, fun j k hj hk => ?_, fun j id hj => ?_, fun j => ?_, fun j hj => ?_,
    writes_cons hinv.writes fun hw => ?_⟩
  · rw [hnone j] at hj
    cases hj
  · rw [hnone j] at hj
    cases hj
  · by_cases hji : j = i
    · subst hji
      rw [Function.update_self] at hj
      exact hsettled id hj
    · rw [Function.update_of_ne hji] at hj
      exact absurd (hinv.settled j id hj) (hinv.claimed i job hjob).not_readyAs
  · rw [hnone j]
    by_cases hji : j = i
    · subst hji
      rcases he with he | ⟨-, he⟩ <;> simp [registering, he, hclaims]
    · rw [registering_of_ne (Ne.symm hji), hinv.registrar j]
      rw [← hnone j, Function.update_of_ne hji]
  · by_cases hji : j = i
    · subst hji
      rw [Function.update_self] at hj
      rcases he with he | ⟨hne, -⟩
      · simp [marked, he]
      · rw [hne] at hj
        cases hj
    · rw [Function.update_of_ne hji] at hj
      exact marked_cons (hinv.created j hj)
  · rw [hwrite] at hw
    cases hw

theorem claim?_of_givesUp {ψ : CreatePhase} {job : Holding} (hψ : ψ.GivesUp job) :
    claim? ψ = some job := by
  cases hψ <;> rfl

/-- Every call of a creation keeps the claims exclusive. -/
theorem Exclusive.step {d : Deployment} (hlocal : d.backend = .local)
    (hinv : Exclusive p fs φ h w) {i : ι} {φ' : CreatePhase} {op : Port} {r : op.Reply}
    (hexec : World.Exec d .lostOnly w op r w') (hstep : CreateStep d p fs (φ i) op r φ') :
    Exclusive p fs (Function.update φ i φ') (⟨i, op, r, w⟩ :: h) w' := by
  have hcontract := serviceMachine_honours d .lostOnly w op r w' hexec
  have hquiet : op.Quiet → w'.metadata.row p fs = w.metadata.row p fs := fun hop => by
    rw [(hexec.quiet hop).metadata]
  have hneutral : op.Quiet → Neutral (⟨i, op, r, w⟩ : Event ports ι World) :=
    fun hop => neutral_of_quiet hop
  have hwrites : op.Quiet → writesTarget (⟨i, op, r, w⟩ : Event ports ι World) h = true →
      (claim? (φ i)).isSome = true := fun hop hw => by
    rw [writesTarget_of_quiet hop] at hw
    cases hw
  have hclaimed := hinv.claimed i
  have hsettled := hinv.settled i
  have hversion : ∀ job, claim? (φ i) = some job → job.version ≠ none := by
    intro job hjob
    obtain ⟨v, -, -, rfl⟩ := hclaimed job hjob
    simp
  generalize hφ : φ i = ψ at hstep hclaimed hsettled hversion hwrites
  cases hstep with
  | idle hop =>
    exact hinv.neutral (hquiet hop.1) (hneutral hop.1) (by rw [hφ]) hsettled (by rw [hφ]; exact id)
      (by rw [hφ]; exact hwrites hop.1)
  | found =>
    obtain ⟨v, hrow, hstate, rfl⟩ := World.Exec.getLatest_ok hlocal hexec
    refine hinv.neutral (hquiet trivial) (hneutral trivial) (by rw [hφ]; rfl) ?_ nofun
      (by rw [hφ]; exact hwrites trivial)
    rintro id ⟨⟩
    exact ⟨v, hrow, hstate, rfl⟩
  | unclaimed hclaim =>
    have hatomic := hcontract.mpr hlocal
    rw [hclaim] at hatomic
    cases hatomic
  | claim hfs hclaim =>
    subst hfs
    rcases hexec.claimForWrite hlocal with ⟨-, hrefused⟩ | ⟨-, hfree, hrows, hr | ⟨hfault, -⟩⟩
    · have hfalse := (hrefused _ rfl).1
      rw [hclaim] at hfalse
      cases hfalse
    · cases hr
      exact hinv.claim hfree ⟨_, by rw [hrows, if_pos ⟨rfl, rfl⟩], rfl, rfl⟩ rfl rfl
    · exact False.elim hfault
  | taken hfs hclaim hready =>
    subst hfs
    rcases hexec.claimForWrite hlocal with ⟨hw, hrefused⟩ | ⟨-, -, -, hr | ⟨hfault, -⟩⟩
    · obtain ⟨-, v, hrow, hrecord, hstate⟩ := hrefused _ rfl
      refine hinv.neutral (by rw [hw]) ⟨hclaim, rfl, rfl⟩ (by rw [hφ]; rfl) ?_ nofun nofun
      rintro id ⟨⟩
      exact ⟨v, hrow, hstate.symm.trans hready, by rw [hrecord]⟩
    · cases hr
      cases hclaim
    · exact False.elim hfault
  | @refused record r hfs hclaim =>
    subst hfs
    rcases hexec.claimForWrite hlocal with ⟨hw, -⟩ | ⟨-, -, -, rfl | ⟨hfault, -⟩⟩
    · refine hinv.neutral (by rw [hw]) ⟨?_, rfl, rfl⟩ (by rw [hφ]) hsettled (by rw [hφ]; exact id)
        nofun
      cases r with
      | ok claim => exact hclaim claim rfl
      | error e => rfl
    · cases hclaim _ rfl
    · exact False.elim hfault
  | locate =>
    exact hinv.neutral (hquiet trivial) (hneutral trivial) (by rw [hφ]; rfl) nofun nofun
      (by rw [hφ]; exact hwrites trivial)
  | unlocated =>
    exact hinv.neutral (hquiet trivial) (hneutral trivial) (by rw [hφ]) nofun nofun
      (by rw [hφ]; exact hwrites trivial)
  | aim hsource hcontainer =>
    exact hinv.neutral (hquiet trivial) (hneutral trivial) (by rw [hφ]; rfl) nofun nofun
      (by rw [hφ]; exact hwrites trivial)
  | misplace hcontainer =>
    exact hinv.neutral (hquiet trivial) (hneutral trivial) (by rw [hφ]; rfl) nofun nofun
      (by rw [hφ]; exact hwrites trivial)
  | copy hzone hdone =>
    exact hinv.neutral (by rw [hexec.blobs_frame.1]) ⟨rfl, rfl, rfl⟩ (by rw [hφ]; rfl) nofun nofun
      fun _ => by rw [hφ]; rfl
  | put hzone hdone =>
    exact hinv.neutral (by rw [hexec.blobs_frame.1]) ⟨rfl, rfl, rfl⟩ (by rw [hφ]; rfl) nofun nofun
      fun _ => by rw [hφ]; rfl
  | reuse hzone hexists =>
    exact hinv.neutral (hquiet trivial) (hneutral trivial) (by rw [hφ]; rfl) nofun nofun
      (by rw [hφ]; exact hwrites trivial)
  | yield hclaim =>
    obtain ⟨v, hrow, hstate, rfl⟩ := World.Exec.getLatest_ok hlocal hexec
    exact absurd ⟨v, hrow, hstate, rfl⟩ (hclaimed _ rfl).not_readyAs
  | fallBack hclaim => exact absurd hclaim (hversion _ rfl)
  | giveWay hversion => exact absurd (hsettled _ rfl) (hclaimed _ rfl).not_readyAs
  | keep =>
    exact hinv.neutral (hquiet trivial) (hneutral trivial) (by rw [hφ]; rfl) nofun nofun
      (by rw [hφ]; exact hwrites trivial)
  | abort =>
    exact hinv.neutral (hquiet trivial) (hneutral trivial) (by rw [hφ]; rfl) nofun nofun
      (by rw [hφ]; exact hwrites trivial)
  | remove =>
    exact hinv.neutral (by rw [hexec.blobs_frame.1]) ⟨rfl, rfl, rfl⟩ (by rw [hφ]; rfl) nofun nofun
      fun _ => by rw [hφ]; rfl
  | release hgives hsome =>
    exact hinv.finish (by rw [hφ, claim?_of_givesUp hgives]; rfl) rfl nofun rfl (.inr ⟨rfl, rfl⟩) rfl
  | mark hfs hid hsome hout =>
    subst hfs
    rcases hexec.markReady hlocal with ⟨-, e, hr⟩ | ⟨v, hrow, hstate, hvid, hvv, hr, hrows⟩
    · cases hr
    · rcases hr with hr | ⟨-, e, hr⟩
      · cases hr
        refine hinv.finish (by rw [hφ]; rfl) rfl ?_ rfl (.inl rfl) rfl
        rintro id ⟨⟩
        exact ⟨_, by rw [hrows, if_pos ⟨rfl, rfl⟩], rfl, rfl⟩
      · cases hr
  | create hfs hid hnone => exact absurd hnone (hversion _ rfl)
  | markFailed hfs hid hsome =>
    subst hfs
    rcases hexec.markReady hlocal with ⟨hw, -⟩ | ⟨v, -, -, -, -, hr | ⟨hfault, -⟩, -⟩
    · exact hinv.neutral (by rw [hw]) ⟨rfl, rfl, rfl⟩ (by rw [hφ]) nofun (by rw [hφ]; exact id) nofun
    · cases hr
    · exact False.elim hfault
  | createFailed hfs hid hnone => exact absurd hnone (hversion _ rfl)
  | leaseRelease hexit =>
    exact hinv.neutral (hquiet trivial) (hneutral trivial) (by rw [hφ]) hsettled
      (by rw [hφ]; exact id) (by rw [hφ]; exact hwrites trivial)
  | save =>
    refine hinv.neutral (by rw [hexec.locations_frame.1]) ⟨rfl, rfl, rfl⟩ (by rw [hφ]; rfl) ?_
      (by rw [hφ]; exact id) nofun
    exact fun id hid => hsettled id hid
  | cleanUp hzone =>
    refine hinv.neutral (by rw [hexec.blobs_frame.1]) ⟨rfl, rfl, rfl⟩ (by rw [hφ]) hsettled
      (by rw [hφ]; exact id) fun hw => ?_
    have hmarked := hinv.created i (by rw [hφ]; rfl)
    simp [writesTarget, hmarked] at hw

/-- Exclusive claims are an invariant of any number of creations. -/
theorem preserves_exclusive (p fs : String) {d : Deployment} (hlocal : d.backend = .local) :
    Machine.Preserves (serviceMachine d .lostOnly) (fun _ : ι => CreateStep d p fs)
      (fun _ => True) (Exclusive p fs) where
  step i _ _ _ _ hinv hexec hstep _ := hinv.step hlocal hexec hstep
  env := by
    intro φ h w w' hinv htick
    have hrow : w'.metadata = w.metadata := (World.Tick.sameData htick).metadata
    refine ⟨fun i job hi => ?_, hinv.single, fun i id hi => ?_, hinv.registrar, hinv.created,
      hinv.writes⟩
    · unfold ClaimedBy
      rw [hrow]
      exact hinv.claimed i job hi
    · unfold ReadyAs
      rw [hrow]
      exact hinv.settled i id hi

theorem exclusive_start (w : World) : Exclusive p fs (fun _ : ι => .start) [] w := by
  refine ⟨nofun, nofun, nofun, fun i => rfl, nofun, fun e h' hsuffix => ?_⟩
  cases List.suffix_nil.mp hsuffix

/-- Single registrar: among any number of creations of one file source, at most one lies between
its claim and its mark or release, only that one copies and rolls back, and all that return a
record id return the same one. -/
theorem createFileMetadata_single_registrar {d : Deployment} (hlocal : d.backend = .local)
    {polls : ι → Nat} {u : ι → UseCasePorts} {caller : ι → CallerContext}
    {record : ι → FileMetadataRecord} (hp : ∀ i, (caller i).partition = p)
    (hfs : ∀ i, (record i).fileSource = fs)
    {c : Machine.Config ports ι World fun _ => Except Exit String}
    (hrun : (serviceMachine d .lostOnly).Reaches
      ⟨fun i => (createFileMetadata (polls i) (u i) (caller i) (record i)).run, w⟩ h c) :
    (∀ i j, registering i h = true → registering j h = true → i = j) ∧
    (∀ e h', (e :: h') <:+ h → writesTarget e h' = true → registering e.thread h' = true) ∧
    ∀ i j id id', c.threads i = .ret (.ok id) → c.threads j = .ret (.ok id') → id = id' := by
  obtain ⟨φ, hfollows, hinv⟩ := hrun.follows (serviceMachine_honours d .lostOnly)
    (preserves_exclusive p fs hlocal) (fun _ => trivial)
    (fun i => by
      have hi := createFileMetadata_follows d (polls i) (u i) (caller i) (record i)
      rwa [hp i, hfs i] at hi)
    (exclusive_start w) trivial
  have hreturned : ∀ i id, c.threads i = .ret (.ok id) → ReadyAs p fs id c.state := by
    intro i id hi
    have hends := hfollows i
    rw [hi] at hends
    refine hinv.settled i id ?_
    have hreturns : (φ i).Returns id := hends
    generalize φ i = ψ at hreturns
    cases hreturns <;> rfl
  refine ⟨fun i j hi hj => ?_, hinv.writes, fun i j id id' hi hj => ?_⟩
  · rw [hinv.registrar] at hi hj
    exact hinv.single i j hi hj
  · obtain ⟨v, hv, -, rfl⟩ := hreturned i id hi
    obtain ⟨v', hv', -, rfl⟩ := hreturned j id' hj
    cases hv.symm.trans hv'
    rfl

/-- Two creations of the sample record, before any call. -/
def twoCreations : Machine.Config ports Bool World fun _ => Except Exit String where
  threads _ := (createFileMetadata 1 samplePorts sampleCaller sampleRecord).run
  state := stagedWorld

/-- The first gets as far as its copy, then the second runs. -/
def twoCreationsRun :
    History ports Bool World × Machine.Config ports Bool World fun _ => Except Exit String :=
  (World.driver sampleDeployment .lostOnly).replay twoCreations
    (List.replicate 12 (.call true (.done "a")) ++ List.replicate 12 (.call false (.done "b")))

theorem second_creation_not_registering :
    registering true twoCreationsRun.1 = true ∧ registering false twoCreationsRun.1 = false := by
  have hrun := (World.driver sampleDeployment .lostOnly).reaches_replay twoCreations
    (List.replicate 12 (.call true (.done "a")) ++ List.replicate 12 (.call false (.done "b")))
  have hfirst : registering true twoCreationsRun.1 = true := by decide +kernel
  have hsingle := (createFileMetadata_single_registrar (d := sampleDeployment) rfl (fun _ => rfl)
    (fun _ => rfl) hrun).1
  refine ⟨hfirst, ?_⟩
  cases hsecond : registering false twoCreationsRun.1 with
  | false => rfl
  | true => cases hsingle true false hfirst hsecond

end FileService.Safety
