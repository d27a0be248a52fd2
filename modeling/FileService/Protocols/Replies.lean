import FileService.App.Support
import FileService.Domain.Effects

/-!
# What the ports reply, and steps that matter to no protocol

`replies d` says what holds of every reply on a deployment, in any state. The
rules below walk over the calls of a use case. Calls whose effect no protocol
looks at are idle: a use case may make them in every phase.
-/
namespace FileService.Protocols
open FileService.Common FileService.Domain FileService.Interaction FileService.App
open FileService.Infra

/-- The replies of a deployment, whatever the state is. -/
def replies (d : Deployment) : Contract ports
  | .forPartition partition zone, r => ∀ store, r = .ok store → store = d.store partition zone
  | .metadataCapabilities, r => r.atomicClaim = true ↔ d.backend = .local
  | .locations (.find _ fileId), r =>
    ∀ location, r = .ok location → location.fileId = fileId ∧ location.fileSource ≠ ""
  | .locations (.findByFileSource _ fileSource), r =>
    ∀ location, r = .ok location → location.fileSource = fileSource ∧ location.fileSource ≠ ""
  | .locations (.list ..), r =>
    ∀ page, r = .ok page → ∀ location ∈ page.records, location.fileSource ≠ ""
  | .metadata (.markReady _ id version record), r =>
    ∀ out, r = .ok out → out = { record with id := id, version := version }
  | _, _ => True

theorem honours_done (d : Deployment) (uuid : String) (w : World) (op : Port) :
    replies d op (w.apply d uuid op).1 := by
  cases op with
  | forPartition partition zone =>
    intro store h
    exact (Except.ok.inj h).symm
  | metadataCapabilities =>
    cases hb : d.backend <;> simp [replies, World.apply, hb]
  | locations call =>
    cases call with
    | find partition fileId =>
      intro location h
      have hfound := InMemoryLocationRepository.find_eq_ok.mp h
      obtain ⟨hid, hsource⟩ := w.locations.keyed hfound
      exact ⟨hid, hsource⟩
    | findByFileSource partition fileSource =>
      intro location h
      have hfound := InMemoryLocationRepository.findByFileSource_eq_ok.mp h
      obtain ⟨hid, hsource⟩ := InMemoryLocationRepository.byFileSource_eq_some.mp hfound
      exact ⟨hsource, (w.locations.keyed hid).2⟩
    | save partition location => trivial
    | updateSignedUrl partition fileId signedUrl updatedAt => trivial
    | delete partition fileId => trivial
    | list partition query =>
      intro page h location hlocation
      exact (w.locations.keyed (InMemoryLocationRepository.mem_list h hlocation)).2
  | metadata call =>
    cases call with
    | markReady partition id version record =>
      intro out h
      cases hb : d.backend with
      | «local» =>
        simp only [World.apply, hb, World.localCall] at h
        rcases w.metadata.markReady_cases partition id version record with
          ⟨e, he⟩ | ⟨v, -, -, -, -, hok, -⟩
        · rw [he] at h
          cases h
        · rw [hok] at h
          exact (Except.ok.inj h).symm
      | remote =>
        simp only [World.apply, hb, World.remoteCall] at h
        cases h
    | _ => trivial
  | _ => trivial

theorem honours_failed (d : Deployment) {op : Port} {e : Error} {r : op.Reply}
    (h : op.failed e = some r) : replies d op r := by
  cases op with
  | metadata call =>
    cases Option.some.inj h
    cases call <;> first | trivial | (intro out h; cases h)
  | locations call =>
    cases Option.some.inj h
    cases call <;> first | trivial | (intro out h; cases h)
  | forPartition partition zone =>
    cases Option.some.inj h
    intro store h
    cases h
  | metadataCapabilities => cases h
  | _ => trivial

/-- Every outcome of a call keeps to the contract. -/
theorem serviceMachine_honours (d : Deployment) (faults : World.Faults) :
    (serviceMachine d faults).Honours (replies d) := by
  intro w op r w' h
  cases h with
  | done uuid => exact honours_done d uuid w op
  | lost hfault hr => exact honours_failed d hr
  | unacknowledged hfault hr => exact honours_failed d hr
  | noThread => trivial

/-- Calls that a protocol looks at although they change no data. -/
def Port.Watched : Port → Prop
  | .leases (.release ..) | .partitionConfig _ | .locations (.findByFileSource ..) => True
  | _ => False

/-- Calls that change no data and are not watched. -/
def Idle (op : Port) : Prop := op.Quiet ∧ ¬Port.Watched op

/-- A protocol that allows idle calls in every phase. -/
def Idles {Phase : Type} (P : Protocol ports Phase) : Prop := ∀ φ op r, Idle op → P φ op r φ

/-- An action that makes idle calls only, and exits in the ways of `X` only. -/
def IdleAction {α : Type} (X : Exit → Prop) (x : Action α) : Prop :=
  (ExceptT.run x).Uses Idle fun out => ∀ exit, out = .error exit → X exit

section IdleActions
variable {α β : Type} {X : Exit → Prop}

theorem idle_pure (a : α) : IdleAction X (pure a : Action α) := by
  rintro exit ⟨⟩

theorem idle_throw {exit : Exit} (h : X exit) : IdleAction X (throw exit : Action α) := by
  rintro _ ⟨⟩
  exact h

theorem idle_bind {x : Action α} {f : α → Action β} (hx : IdleAction X x)
    (hf : ∀ a, IdleAction X (f a)) : IdleAction X (x >>= f) :=
  Program.uses_bind hx fun out hout => by
    cases out with
    | ok a => exact hf a
    | error exit => exact idle_throw (hout exit rfl)

theorem idle_ask {op : Port} {f : op.Reply → Action α} (h : Idle op)
    (hf : ∀ r, IdleAction X (f r)) : IdleAction X (Action.ask op >>= f) :=
  idle_bind ⟨h, fun r => by rintro exit ⟨⟩⟩ hf

theorem idle_attempt {x : Action α} {Y : Exit → Prop} (hx : IdleAction Y x)
    (h : ∀ exit, Y exit → (∃ e, exit = .error e) ∨ X exit) : IdleAction X (Action.attempt x) :=
  Program.uses_bind hx fun out hout => by
    cases out with
    | ok a => exact idle_pure (Except.ok a)
    | error exit =>
      rcases h exit (hout exit rfl) with ⟨e, rfl⟩ | hX
      · exact idle_pure (Except.error e)
      · cases exit with
        | error e => exact idle_pure (Except.error e)
        | exception what => exact idle_throw hX
        | diverged => exact idle_throw hX

theorem idle_publishStatus (caller : CallerContext) (status : String) (version : Int)
    (recordId : String) : IdleAction X (publishStatus caller status version recordId) :=
  idle_ask ⟨trivial, id⟩ fun _ => idle_pure _

theorem idle_publishDatasetDetails (caller : CallerContext) (recordId : String) (version : Int) :
    IdleAction X (publishDatasetDetails caller recordId version) :=
  idle_ask ⟨trivial, id⟩ fun _ => idle_ask ⟨trivial, id⟩ fun _ => idle_pure _

section Failing
variable (hX : ∀ e, X (.error e))
include hX

theorem idle_tryResult (r : Result α) : IdleAction X (Action.tryResult r) := by
  cases r with
  | ok a => exact idle_pure a
  | error e => exact idle_throw (hX e)

theorem idle_authorizeCaller (caller : CallerContext) (role : String) :
    IdleAction X (authorizeCaller caller role) := by
  unfold authorizeCaller
  dsimp only
  split
  · exact idle_throw (hX _)
  · exact idle_ask ⟨trivial, id⟩ fun _ => idle_tryResult hX _

theorem idle_authorizeCallerAny (caller : CallerContext) (roles : List String) :
    IdleAction X (authorizeCallerAny caller roles) := by
  unfold authorizeCallerAny
  dsimp only
  split
  · exact idle_throw (hX _)
  · split
    · exact idle_throw (hX _)
    · exact idle_ask ⟨trivial, id⟩ fun _ => idle_tryResult hX _

theorem idle_recordAudit (u : UseCasePorts) (operation : String) (caller : CallerContext)
    (objectId : String) (success : Bool) :
    IdleAction X (recordAudit u operation caller objectId success) := by
  unfold recordAudit
  refine idle_ask ⟨trivial, id⟩ fun _ => idle_ask ⟨trivial, id⟩ fun r => ?_
  cases r with
  | ok a => exact idle_pure _
  | error e =>
    dsimp only
    split
    · exact idle_throw (hX _)
    · exact idle_pure _

theorem idle_computeChecksumStreaming (u : UseCasePorts) (partition : String) (ref : ObjectRef)
    (zone : StorageZone) : IdleAction X (computeChecksumStreaming u partition ref zone) :=
  idle_ask ⟨trivial, id⟩ fun _ => idle_bind (idle_tryResult hX _) fun _ =>
    idle_ask ⟨trivial, id⟩ fun _ => idle_bind (idle_tryResult hX _) fun _ => idle_pure _

theorem idle_readAll (store : StoreId) (ref : ObjectRef) (size rounds offset : Nat) (data : Bytes) :
    IdleAction X (readAll store ref size rounds offset data) := by
  induction rounds generalizing offset data with
  | zero => exact idle_pure _
  | succ rounds ih =>
    unfold readAll
    split
    · exact idle_pure _
    · refine idle_ask ⟨trivial, id⟩ fun _ => idle_bind (idle_tryResult hX _) fun chunk => ?_
      split
      · exact idle_throw (hX _)
      · split
        · exact idle_pure _
        · exact ih _ _

theorem idle_ensureLeaseOwnership (u : UseCasePorts) (caller : CallerContext)
    (fileSource : String) : IdleAction X (ensureLeaseOwnership u caller fileSource) := by
  unfold ensureLeaseOwnership
  split
  · exact idle_pure _
  · refine idle_ask ⟨trivial, id⟩ fun r => ?_
    cases r with
    | ok a => exact idle_pure _
    | error e =>
      dsimp only
      split
      · exact idle_throw (hX _)
      · refine idle_ask ⟨trivial, id⟩ fun r => ?_
        cases r with
        | ok a => exact idle_pure _
        | error e => exact idle_throw (hX _)

theorem idle_returnExistingRecord (u : UseCasePorts) (caller : CallerContext)
    (existing : FileMetadataRecord) : IdleAction X (returnExistingRecord u caller existing) :=
  idle_bind (idle_publishStatus ..) fun _ => idle_bind (idle_publishDatasetDetails ..) fun _ =>
    idle_bind (idle_recordAudit hX ..) fun _ => idle_pure _

end Failing

/-- A failure is recorded as far as possible: no exit comes from it. -/
theorem idle_recordFailure (u : UseCasePorts) (operation : String) (caller : CallerContext)
    (objectId : String) : IdleAction X (recordFailure u operation caller objectId) :=
  idle_bind (idle_attempt (idle_recordAudit (X := fun exit => ∃ e, exit = .error e)
    (fun e => ⟨e, rfl⟩) ..) fun _ h => .inl h) fun _ => idle_pure _

theorem idle_objectRefFromLocation (hX : ∀ exit, X exit) (location : FileLocation) :
    IdleAction X (objectRefFromLocation location) := by
  unfold objectRefFromLocation
  split
  · exact idle_pure _
  · exact idle_throw (hX _)
  · exact idle_throw (hX _)

end IdleActions

section Rules
variable {Phase α β : Type} {d : Deployment} {P : Protocol ports Phase} {φ : Phase}
variable {Q : α → Phase → Prop} {E : Exit → Phase → Prop}

/-- One call, and what the program does with each reply. -/
theorem follows_ask {op : Port} {f : op.Reply → Action α}
    (h : ∀ r, replies d op r → ∃ φ', P φ op r φ' ∧ Action.Follows (replies d) P Q E (f r) φ') :
    Action.Follows (replies d) P Q E (Action.ask op >>= f) φ :=
  Action.Follows.bind (Action.follows_call (Q := fun r φ => Action.Follows (replies d) P Q E (f r) φ)
    h) fun _ _ h => h

/-- An idle call leaves the phase alone. -/
theorem follows_idle {op : Port} {f : op.Reply → Action α} (hP : Idles P) (hop : Idle op)
    (h : ∀ r, replies d op r → Action.Follows (replies d) P Q E (f r) φ) :
    Action.Follows (replies d) P Q E (Action.ask op >>= f) φ :=
  follows_ask fun r hr => ⟨φ, hP φ op r hop, h r hr⟩

theorem follows_idleAction {X : Exit → Prop} {x : Action α} (hP : Idles P) (hx : IdleAction X x)
    (hQ : ∀ a, Q a φ) (hE : ∀ exit, X exit → E exit φ) :
    Action.Follows (replies d) P Q E x φ :=
  Program.Uses.follows hx (fun op r hop => hP φ op r hop) fun out hout => by
    cases out with
    | ok a => exact hQ a
    | error exit => exact hE exit (hout exit rfl)

theorem follows_tryResult {r : Result β} {f : β → Action α}
    (h : ∀ b, r = .ok b → Action.Follows (replies d) P Q E (f b) φ)
    (hE : ∀ e, r = .error e → E (.error e) φ) :
    Action.Follows (replies d) P Q E (Action.tryResult r >>= f) φ := by
  cases r with
  | ok b => exact h b rfl
  | error e => exact hE e rfl

/-- Idle steps before the rest of a program. -/
theorem follows_idle_bind {X : Exit → Prop} {x : Action β} {f : β → Action α} (hP : Idles P)
    (hx : IdleAction X x) (h : ∀ b, Action.Follows (replies d) P Q E (f b) φ)
    (hE : ∀ exit, X exit → E exit φ) :
    Action.Follows (replies d) P Q E (x >>= f) φ :=
  Action.Follows.bind (follows_idleAction (Q := fun _ ψ => ψ = φ) hP hx (fun _ => rfl) hE)
    fun b _ hψ => hψ ▸ h b

/-- Idle steps that never exit. -/
theorem follows_silent {x : Action β} {f : β → Action α} (hP : Idles P)
    (hx : IdleAction (fun _ => False) x) (h : ∀ b, Action.Follows (replies d) P Q E (f b) φ) :
    Action.Follows (replies d) P Q E (x >>= f) φ :=
  follows_idle_bind hP hx h fun _ => False.elim

/-- The caller of `attempt` goes on after an error, in the phase the error left. -/
theorem follows_attempt {x : Action α} {Q : Result α → Phase → Prop}
    (h : Action.Follows (replies d) P (fun a φ => Q (.ok a) φ)
      (fun exit φ => match exit with | .error e => Q (.error e) φ | exit => E exit φ) x φ) :
    Action.Follows (replies d) P Q E (Action.attempt x) φ :=
  Action.Follows.exitingWith h (fun _ _ h => h) fun exit φ h => by
    cases exit with
    | error e => exact h
    | exception what => exact h
    | diverged => exact h

/-- The destructor runs after the body, whichever way it left. -/
theorem follows_destructing {x : Action α} {destructor : Action Unit} {Q₁ : α → Phase → Prop}
    {E₁ : Exit → Phase → Prop} (h : Action.Follows (replies d) P Q₁ E₁ x φ)
    (hQ : ∀ a φ, Q₁ a φ → Action.Follows (replies d) P (fun _ => Q a) (fun _ => Q a) destructor φ)
    (hE : ∀ e φ, E₁ e φ → Action.Follows (replies d) P (fun _ => E e) (fun _ => E e) destructor φ)
    (hdiverged : ∀ φ, E₁ .diverged φ → E .diverged φ) :
    Action.Follows (replies d) P Q E (x.destructing destructor) φ := by
  refine Action.Follows.exitingWith h (fun a φ h => ?_) fun exit φ h => ?_
  · refine Program.Follows.bind (hQ a φ h) fun out φ h => ?_
    cases out <;> exact h
  · cases exit with
    | diverged => exact hdiverged φ h
    | error e =>
      refine Program.Follows.bind (hE _ φ h) fun out φ h => ?_
      cases out <;> exact h
    | exception what =>
      refine Program.Follows.bind (hE _ φ h) fun out φ h => ?_
      cases out <;> exact h

/-- The audit around a use case may turn a success into an error, and changes nothing else. -/
theorem follows_audited {u : UseCasePorts} {caller : CallerContext} {operation objectId : String}
    {body : Action (Option String × α)} (hP : Idles P)
    (h : Action.Follows (replies d) P (fun a φ => Q a.2 φ ∧ ∀ e, E e φ) (fun _ φ => ∀ e, E e φ)
      body φ) :
    Action.Follows (replies d) P Q E (audited u caller operation objectId body) φ := by
  refine Action.Follows.exitingWith h (fun a φ ha => ?_) fun exit φ hexit => ?_
  · obtain ⟨success, a⟩ := a
    cases success with
    | none =>
      exact follows_idle_bind hP (idle_recordFailure (X := fun _ => True) ..) (fun _ => ha.1)
        fun exit _ => ha.2 exit
    | some id =>
      exact follows_idle_bind hP (idle_recordAudit (X := fun _ => True) (fun _ => trivial) ..)
        (fun _ => ha.1) fun exit _ => ha.2 exit
  · cases exit with
    | diverged => exact hexit _
    | error e =>
      exact follows_idle_bind hP (idle_recordFailure (X := fun _ => True) ..) (fun _ => hexit _)
        fun exit _ => hexit exit
    | exception what =>
      exact follows_idle_bind hP (idle_recordFailure (X := fun _ => True) ..) (fun _ => hexit _)
        fun exit _ => hexit exit

end Rules

end FileService.Protocols
