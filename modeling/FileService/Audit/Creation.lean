import FileService.App.CreateFileMetadata
import FileService.Audit.Notes

/-!
# The audit of a creation

A creation settles for an existing record or takes its object back only with an
outcome event of its own. Everywhere else it leaves its audit to the guard.
-/
namespace FileService.Audit
open FileService.Common FileService.Domain FileService.Interaction FileService.App

section Parts
variable {operation : String} {caller : CallerContext} {u : UseCasePorts}

theorem calls_authorizeCaller {role : String} :
    Calls operation (fun _ => True) (authorizeCaller caller role) := by
  unfold authorizeCaller
  dsimp only
  split
  · exact calls_fail _
  · exact calls_bind (calls_ask fun _ => rfl) fun r => calls_tryResult r

theorem calls_publishStatus {status recordId : String} {version : Int} (h : status ≠ "FAILED") :
    Calls operation (fun _ => True) (publishStatus caller status version recordId) :=
  calls_bind (calls_ask fun _ => if_neg h) fun _ => calls_pure trivial

theorem calls_publishDatasetDetails {recordId : String} {version : Int} :
    Calls operation (fun _ => True) (publishDatasetDetails caller recordId version) :=
  calls_bind (calls_ask fun _ => rfl) fun _ =>
    calls_bind (calls_ask fun _ => rfl) fun _ => calls_pure trivial

theorem calls_containerFor {partition : String} {zone : StorageZone} :
    Calls operation (fun _ => True) (containerFor partition zone) :=
  calls_bind (calls_ask fun _ => rfl) fun _ => calls_pure trivial

theorem calls_objectRefFromLocation {location : FileLocation} :
    Calls operation (fun _ => True) (objectRefFromLocation location) := by
  unfold objectRefFromLocation
  split
  · exact calls_pure trivial
  · exact calls_fail _
  · exact calls_throw _

theorem calls_computeChecksumStreaming {partition : String} {ref : ObjectRef} {zone : StorageZone} :
    Calls operation (fun _ => True) (computeChecksumStreaming u partition ref zone) :=
  calls_bind (calls_ask fun _ => rfl) fun r => calls_bind (calls_tryResult r) fun _ =>
    calls_bind (calls_ask fun _ => rfl) fun r => calls_bind (calls_tryResult r) fun _ =>
      calls_pure trivial

theorem calls_readAll {store : StoreId} {ref : ObjectRef} {size rounds offset : Nat} {data : Bytes} :
    Calls operation (fun _ => True) (readAll store ref size rounds offset data) := by
  induction rounds generalizing offset data with
  | zero => exact calls_pure trivial
  | succ rounds ih =>
    unfold readAll
    split
    · exact calls_pure trivial
    · apply calls_bind (calls_ask fun _ => rfl)
      intro r
      apply calls_bind (calls_tryResult r)
      intro chunk
      split
      · exact calls_fail _
      · split
        · exact calls_pure trivial
        · exact ih

theorem calls_copyBetweenZones {partition : String} {source target : ObjectRef}
    {sourceZone targetZone : StorageZone} : Calls operation (fun _ => True)
      (copyBetweenZones partition source target sourceZone targetZone) := by
  apply calls_bind (calls_ask fun _ => rfl)
  intro fromStore
  apply calls_bind (calls_tryResult fromStore)
  intro fromStore
  apply calls_bind (calls_ask fun _ => rfl)
  intro toStore
  apply calls_bind (calls_tryResult toStore)
  intro toStore
  apply calls_bind (calls_ask fun _ => rfl)
  intro ensured
  apply calls_bind (calls_tryResult ensured)
  intro _
  split
  · exact calls_bind (calls_ask fun _ => rfl) fun r => calls_tryResult r
  · apply calls_bind (calls_ask fun _ => rfl)
    intro stat
    apply calls_bind (calls_tryResult stat)
    intro stat
    apply calls_bind calls_readAll
    intro data
    apply calls_bind (calls_ask fun _ => rfl)
    intro written
    apply calls_bind (calls_tryResult written)
    intro _
    exact calls_bind (calls_ask fun _ => rfl) fun r => calls_tryResult r

theorem calls_ensureLeaseOwnership {fileSource : String} :
    Calls operation (fun _ => True) (ensureLeaseOwnership u caller fileSource) := by
  unfold ensureLeaseOwnership
  split
  · exact calls_pure trivial
  · apply calls_bind (calls_ask fun _ => rfl)
    intro renewed
    cases renewed with
    | ok a => exact calls_pure trivial
    | error e =>
      dsimp only
      split
      · exact calls_fail _
      · apply calls_bind (calls_ask fun _ => rfl)
        intro acquired
        cases acquired with
        | ok a => exact calls_pure trivial
        | error e => exact calls_fail _

theorem calls_checkRequest {record : FileMetadataRecord} :
    Calls operation (fun _ => True) (checkRequest caller record) := by
  unfold checkRequest
  apply calls_bind calls_authorizeCaller
  intro _
  apply calls_bind (calls_publishStatus (by decide))
  intro _
  apply calls_bind (calls_tryResult _)
  intro _
  extract_lets legal source
  have hlegal : ∀ x, Calls operation (fun _ => True) (legal x) := fun _ =>
    calls_bind (calls_ask fun _ => rfl) fun r => calls_bind (calls_tryResult r) fun _ =>
      calls_bind (calls_ask fun _ => rfl) fun r => calls_tryResult r
  have hsource : ∀ x, Calls operation (fun _ => True) (source x) := by
    intro x
    dsimp only [source]
    split
    · exact calls_throw _
    · exact hlegal ⟨⟩
  split
  · exact calls_throw _
  · exact hsource ⟨⟩

end Parts

/-- The ways a part of a creation may leave: with nothing to the point noted, or settled. -/
abbrev Sorts {α : Type} (settled : α → Bool) (x : Domain.Action α) : Prop :=
  Leaves x (fun items a => AllAside creation items ∧ settled a = false ∨
    Spoilt creation items ∧ settled a = true)
    fun items _ => AllAside creation items ∨ Spoilt creation items

section Rules
variable {α β : Type} {settled : β → Bool} {x : Domain.Action α} {f : α → Domain.Action β}

theorem sorts_pure {b : β} (h : settled b = false) : Sorts settled (pure b) :=
  Interaction.Action.outputs_pure (.inl ⟨fun _ hitem => (List.not_mem_nil hitem).elim, h⟩)

theorem sorts_throw (exit : Exit) : Sorts settled (throw exit : Domain.Action β) :=
  Interaction.Action.outputs_throw (.inl fun _ hitem => (List.not_mem_nil hitem).elim)

theorem Calls.sorts (hx : Calls creation (fun _ => True) x) : Sorts (fun _ => false) x :=
  hx.leaves.imp (fun _ _ h => .inl ⟨h.1, rfl⟩) fun _ _ h => .inl h

/-- What follows notes that are not to the point. -/
theorem Sorts.after {before : List Note} {y : Domain.Action β} (hbefore : AllAside creation before)
    (hy : Sorts settled y) : Leaves y
      (fun items b => AllAside creation (before ++ items) ∧ settled b = false ∨
        Spoilt creation (before ++ items) ∧ settled b = true)
      fun items _ => AllAside creation (before ++ items) ∨ Spoilt creation (before ++ items) :=
  hy.imp (fun _ _ h => h.imp (fun h => ⟨hbefore.append h.1, h.2⟩) fun h => ⟨h.1.prepend, h.2⟩)
    fun _ _ h => h.imp hbefore.append Spoilt.prepend

theorem sorts_bind (hx : Sorts (fun _ => false) x) (hf : ∀ a, Sorts settled (f a)) :
    Sorts settled (x >>= f) := by
  apply Interaction.Action.Outputs.bind hx
  rintro before a (⟨hbefore, -⟩ | ⟨-, hsettled⟩)
  · exact (hf a).after hbefore
  · cases hsettled

theorem sorts_calls (hx : Calls creation (fun _ => True) x) (hf : ∀ a, Sorts settled (f a)) :
    Sorts settled (x >>= f) :=
  sorts_bind hx.sorts hf

theorem sorts_ask {op : Port} {f : op.Reply → Domain.Action β} (hop : ∀ r : op.Reply, notes ⟨op, r⟩ = [])
    (hf : ∀ r, Sorts settled (f r)) : Sorts settled (Action.ask op >>= f) :=
  sorts_calls (calls_ask hop) hf

theorem sorts_try {V : Type} {f : V → Domain.Action β} (r : Result V)
    (hf : ∀ a, Sorts settled (f a)) : Sorts settled (Action.tryResult r >>= f) :=
  sorts_calls (calls_tryResult r) hf

/-- The value decides what is settled, the notes stay as they are. -/
theorem sorts_map {settledBefore : α → Bool} {g : α → β} (hx : Sorts settledBefore x)
    (hg : ∀ a, settled (g a) = settledBefore a) : Sorts settled (x >>= fun a => pure (g a)) := by
  apply Interaction.Action.Outputs.bind hx
  intro before a h
  apply Interaction.Action.outputs_pure
  simpa [hg] using h

/-- An event that is a warning only. -/
theorem leaves_warning {u : UseCasePorts} {caller : CallerContext} {operation objectId : String}
    (h : operation ≠ creation ++ "Success") (h' : operation ≠ creation ++ "Failure") :
    Leaves (recordFailure u operation caller objectId) (fun items _ => AllAside creation items)
      fun items _ => AllAside creation items := by
  apply leaves_recordFailure.imp
  · rintro items _ ⟨recorded, event, rfl, hoperation, -⟩ item hitem
    cases List.mem_singleton.mp hitem
    simp [Note.Aside, isOutcome, hoperation, h, h']
  · exact fun _ _ => False.elim

theorem sorts_warning {u : UseCasePorts} {caller : CallerContext} {operation objectId : String}
    (h : operation ≠ creation ++ "Success") (h' : operation ≠ creation ++ "Failure") :
    Sorts (fun _ => false) (recordFailure u operation caller objectId) :=
  (leaves_warning h h').imp (fun _ _ h => .inl ⟨h, rfl⟩) fun _ _ h => .inl h

end Rules

section Existing
variable {u : UseCasePorts} {caller : CallerContext} {α : Type} {settled : α → Bool}

/-- An outcome event of the creation. -/
def Reported (items : List Note) : Prop := outcomes creation items ≠ []

theorem Reported.prepend {items later : List Note} (h : Reported later) : Reported (items ++ later) := by
  simp only [Reported, outcomes_append, ne_eq, List.append_eq_nil_iff, not_and]
  exact fun _ => h

theorem reported_of_records {success recorded : Bool} {items : List Note}
    (h : Records (creation ++ "Success") success recorded items ∨
      Records (creation ++ "Failure") success recorded items) : Reported items := by
  rcases h with ⟨event, rfl, hoperation, -⟩ | ⟨event, rfl, hoperation, -⟩
  · simp [Reported, outcomes_singleton (isOutcome_success hoperation)]
  · simp [Reported, outcomes_singleton (isOutcome_failure hoperation)]

theorem spoilt_of_existing {items : List Note} (h : Reported items) :
    Spoilt creation (.existing :: items) :=
  have hreported : Reported ([.existing] ++ items) := h.prepend
  ⟨⟨rfl, .inl List.mem_cons_self⟩, hreported⟩

theorem leaves_publishStatus {status recordId : String} {version : Int} :
    Leaves (publishStatus caller status version recordId)
      (fun items _ => items = if status = "FAILED" then [.rollback] else []) fun _ _ => False := by
  apply Interaction.Action.Outputs.bind (Interaction.Action.outputs_call
    (Q := fun items _ => items = if status = "FAILED" then [.rollback] else []) fun _ _ => rfl)
  rintro before _ rfl
  exact Interaction.Action.outputs_pure (List.append_nil _)

theorem leaves_publishDatasetDetails {recordId : String} {version : Int} :
    Leaves (publishDatasetDetails caller recordId version) (fun items _ => items = [])
      fun _ _ => False := by
  apply Interaction.Action.Outputs.bind (Interaction.Action.outputs_call
    (Q := fun items _ => items = []) fun _ _ => rfl)
  rintro _ millis rfl
  apply Interaction.Action.Outputs.bind (Interaction.Action.outputs_call
    (Q := fun items _ => items = []) fun _ _ => rfl)
  rintro _ _ rfl
  exact Interaction.Action.outputs_pure rfl

/-- The answer with an existing record carries an outcome event. -/
theorem leaves_returnExistingRecord {existing : FileMetadataRecord} :
    Leaves (returnExistingRecord u caller existing) (fun items _ => Reported items)
      fun items _ => Reported items := by
  apply Interaction.Action.Outputs.bind (leaves_publishStatus.imp (fun _ _ h => h)
    fun _ _ => False.elim)
  rintro _ _ rfl
  apply Interaction.Action.Outputs.bind (leaves_publishDatasetDetails.imp (fun _ _ h => h)
    fun _ _ => False.elim)
  rintro _ _ rfl
  apply Interaction.Action.Outputs.bind (Q := fun items _ => Reported items)
  · apply leaves_recordAudit.imp
    · rintro items _ ⟨recorded, hrecords, -⟩
      exact reported_of_records (.inl hrecords)
    · rintro items exit ⟨hrecords, -⟩
      exact reported_of_records (.inl hrecords)
  · intro items _ hreported
    apply Interaction.Action.outputs_pure
    simpa using hreported

/-- A note that depends on the reply, before the rest that the reply chooses. -/
theorem sorts_reply {op : Port} {f : op.Reply → Domain.Action α}
    (hf : ∀ r, Leaves (f r)
      (fun items b => AllAside creation (notes ⟨op, r⟩ ++ items) ∧ settled b = false ∨
        Spoilt creation (notes ⟨op, r⟩ ++ items) ∧ settled b = true)
      fun items _ => AllAside creation (notes ⟨op, r⟩ ++ items) ∨
        Spoilt creation (notes ⟨op, r⟩ ++ items)) : Sorts settled (Action.ask op >>= f) := by
  apply Interaction.Action.Outputs.bind (Interaction.Action.outputs_call
    (Q := fun items r => items = notes ⟨op, r⟩) fun _ _ => rfl)
  rintro _ r rfl
  exact hf r

/-- A lookup by file source: a record that is found settles the creation. -/
theorem sorts_lookup {p fs : String} {f : Result FileMetadataRecord → Domain.Action α}
    (hok : ∀ record, Leaves (f (.ok record)) (fun items a => Reported items ∧ settled a = true)
      fun items _ => Reported items)
    (herror : ∀ e, Sorts settled (f (.error e))) :
    Sorts settled (Action.ask (.metadata (.getLatestByFileSource p fs)) >>= f) := by
  apply sorts_reply
  intro r
  cases r with
  | ok record =>
    exact (hok record).imp (fun _ _ h => .inr ⟨spoilt_of_existing h.1, h.2⟩)
      fun _ _ h => .inr (spoilt_of_existing h)
  | error e => exact herror e

/-- What spoils the audit does so after any call. -/
theorem spoils_ask {op : Port} {f : op.Reply → Domain.Action α}
    (hf : ∀ r, Leaves (f r) (fun items _ => Spoilt creation items) fun _ _ => False) :
    Leaves (Action.ask op >>= f) (fun items _ => Spoilt creation items) fun _ _ => False := by
  apply Interaction.Action.Outputs.bind (Interaction.Action.outputs_call
    (Q := fun _ _ => True) fun _ _ => trivial)
  intro before r _
  exact (hf r).imp (fun _ _ h => h.prepend) fun _ _ h => h

theorem leaves_rollbackCreatedObject {target : ObjectRef} {fileSource recordId : String} :
    Leaves (rollbackCreatedObject u caller target fileSource recordId)
      (fun items _ => Spoilt creation items) fun _ _ => False := by
  have htail : Leaves (do
      publishStatus caller "FAILED" 0 recordId
      recordFailure u "createMetadataFailure" caller recordId)
      (fun items _ => Spoilt creation items) fun _ _ => False := by
    apply Interaction.Action.Outputs.bind leaves_publishStatus
    rintro _ _ rfl
    apply leaves_recordFailure.imp
    · rintro items _ ⟨recorded, hrecords⟩
      have hreported : Reported items := reported_of_records (.inr hrecords)
      exact ⟨⟨rfl, .inr (by simp)⟩, hreported.prepend⟩
    · exact fun _ _ => False.elim
  apply spoils_ask
  intro existing
  cases existing with
  | ok record => exact htail
  | error e =>
    apply spoils_ask
    intro store
    cases store with
    | error e => exact htail
    | ok store => exact spoils_ask fun _ => htail

end Existing

section Abort
variable {job : CreateJob} {α : Type} {settled : α → Bool} {target : ObjectRef}

/-- The claim is given back with a warning at most. -/
theorem sorts_abortNone : Sorts (fun _ => false) (job.abortCreate none) := by
  unfold CreateJob.abortCreate
  cases job.claim with
  | none => exact sorts_pure rfl
  | some version =>
    apply sorts_ask fun _ => rfl
    intro released
    cases released with
    | ok a => exact sorts_pure rfl
    | error e => exact sorts_warning (by decide) (by decide)

/-- Once spoilt, the audit stays so. -/
theorem spoils_bind {β : Type} {x : Domain.Action α} {f : α → Domain.Action β}
    (hx : Leaves x (fun items _ => Spoilt creation items) fun items _ => Spoilt creation items) :
    Leaves (x >>= f) (fun items _ => Spoilt creation items) fun items _ => Spoilt creation items := by
  apply Interaction.Action.Outputs.bind hx
  intro before a hspoilt t out _ _
  cases out <;> exact hspoilt.append

theorem spoils_abortSome : Leaves (job.abortCreate (some target))
    (fun items _ => Spoilt creation items) fun items _ => Spoilt creation items := by
  unfold CreateJob.abortCreate
  exact spoils_bind (leaves_rollbackCreatedObject.imp (fun _ _ h => h) fun _ _ => False.elim)

/-- An abort never returns. -/
theorem sorts_abortWith (rollbackRef : Option ObjectRef) (e : Error) :
    Sorts settled (job.abortWith rollbackRef e) := by
  cases rollbackRef with
  | none => exact sorts_bind sorts_abortNone fun _ => sorts_throw _
  | some target =>
    apply Interaction.Action.Outputs.bind (spoils_abortSome.imp (fun _ _ h => h) fun _ _ h => .inr h)
    intro before _ hspoilt
    exact Interaction.Action.outputs_throw (.inr hspoilt.append)

end Abort

section Register
variable {job : CreateJob} {location : FileLocation} {source target : ObjectRef}

theorem sorts_abortIfLeaseLost {renewer : Option Nat} :
    Sorts (fun _ => false) (job.abortIfLeaseLost renewer target) := by
  unfold CreateJob.abortIfLeaseLost
  cases renewer with
  | none => exact sorts_pure rfl
  | some handle =>
    apply sorts_ask fun _ => rfl
    intro failed
    split
    · exact sorts_abortWith _ _
    · exact sorts_pure rfl

theorem sorts_copyToPersistent : Sorts Sum.isLeft (job.copyToPersistent location source target) := by
  unfold CreateJob.copyToPersistent
  apply sorts_calls (calls_attempt calls_copyBetweenZones)
  intro copied
  cases copied with
  | ok stat => exact sorts_pure rfl
  | error e =>
    apply sorts_lookup
    · intro existing
      have hanswer : Leaves (do return .inl (← returnExistingRecord job.u job.caller existing))
          (fun items (out : String ⊕ ObjectStat) => Reported items ∧ out.isLeft = true)
          fun items _ => Reported items := by
        apply Interaction.Action.Outputs.bind leaves_returnExistingRecord
        intro before id hreported
        exact Interaction.Action.outputs_pure ⟨by simpa using hreported, rfl⟩
      dsimp only
      cases job.claim with
      | none => exact hanswer
      | some version =>
        apply Interaction.Action.Outputs.bind (Interaction.Action.outputs_call
          (Q := fun _ _ => True) fun _ _ => trivial)
        intro before _ _
        exact hanswer.imp (fun _ _ h => ⟨h.1.prepend, h.2⟩) fun _ _ h => h.prepend
    · exact fun _ => sorts_abortWith _ _

theorem sorts_reusePersistent : Sorts (fun _ => false) (job.reusePersistent target) := by
  unfold CreateJob.reusePersistent
  apply sorts_ask fun _ => rfl
  intro store
  cases store with
  | error e => exact sorts_abortWith _ _
  | ok store =>
    apply sorts_ask fun _ => rfl
    intro stat
    cases stat with
    | error e => exact sorts_abortWith _ _
    | ok stat =>
      dsimp only
      split
      · exact sorts_pure rfl
      · exact sorts_abortWith _ _

theorem sorts_obtainPersistent :
    Sorts Sum.isLeft (job.obtainPersistent location source target) := by
  unfold CreateJob.obtainPersistent
  split
  · exact sorts_copyToPersistent
  · exact sorts_map sorts_reusePersistent fun _ => rfl

theorem sorts_checksummed {stat : ObjectStat} :
    Sorts (fun _ => false) (job.checksummed target stat) := by
  unfold CreateJob.checksummed
  extract_lets computed
  have hcomputed : Sorts (fun _ => false) computed := by
    apply sorts_calls (calls_attempt calls_computeChecksumStreaming)
    intro checksum
    cases checksum with
    | ok checksum => exact sorts_pure rfl
    | error e => exact sorts_abortWith _ _
  split
  · split
    · exact sorts_pure rfl
    · exact hcomputed
  · exact hcomputed

theorem sorts_storeRecord {out : FileMetadataRecord} :
    Sorts (fun _ => false) (job.storeRecord out target) := by
  unfold CreateJob.storeRecord
  cases job.claim with
  | some version =>
    apply sorts_ask fun _ => rfl
    intro created
    cases created with
    | ok created => exact sorts_pure rfl
    | error e => exact sorts_abortWith _ _
  | none =>
    apply sorts_ask fun _ => rfl
    intro created
    cases created with
    | ok created => exact sorts_pure rfl
    | error e => exact sorts_abortWith _ _

/-- A registration that ended at an existing record. -/
def isExisting : CreateJob.Registration → Bool
  | .existing _ => true
  | .created .. => false

/-- The steps after the persistent object was obtained. -/
theorem sorts_afterCopy {renewer : Option Nat} (obtained : String ⊕ ObjectStat)
    (h : obtained.isLeft = false) : Sorts isExisting (do
      match obtained with
      | .inl recordId => return .existing recordId
      | .inr stat =>
        job.abortIfLeaseLost renewer target
        let out ← job.checksummed target stat
        job.abortIfLeaseLost renewer target
        let record ← job.storeRecord out target
        return .created record location source target) := by
  cases obtained with
  | inl recordId => cases h
  | inr stat =>
    apply sorts_bind sorts_abortIfLeaseLost
    intro _
    apply sorts_bind sorts_checksummed
    intro out
    apply sorts_bind sorts_abortIfLeaseLost
    intro _
    apply sorts_bind sorts_storeRecord
    intro record
    exact sorts_pure rfl

theorem sorts_registerFound {renewer : Option Nat} :
    Sorts isExisting (job.registerFound renewer) := by
  unfold CreateJob.registerFound
  apply sorts_ask fun _ => rfl
  intro location
  cases location with
  | error e => exact sorts_abortWith _ _
  | ok location =>
    apply sorts_calls calls_objectRefFromLocation
    intro source
    apply sorts_calls calls_containerFor
    intro container
    apply sorts_try
    intro container
    apply Interaction.Action.Outputs.bind sorts_obtainPersistent
    rintro before obtained (⟨haside, hobtained⟩ | ⟨hspoilt, hobtained⟩)
    · exact (sorts_afterCopy obtained hobtained).after haside
    · cases obtained with
      | inl recordId =>
        exact Interaction.Action.outputs_pure (.inr ⟨by simpa using hspoilt, rfl⟩)
      | inr stat => cases hobtained

theorem sorts_register {renewer : Option Nat} : Sorts isExisting (job.register renewer) := by
  rw [CreateJob.register_eq]
  split
  · exact sorts_ask (fun _ => rfl) fun _ => sorts_registerFound
  · exact sorts_registerFound

theorem sorts_registerLeased {renewer : Nat} : Sorts isExisting (job.registerLeased renewer) := by
  apply sorts_ask fun _ => rfl
  intro failed
  split
  · exact sorts_abortWith _ _
  · exact sorts_register

/-- A call whose notes are not to the point, before others of that kind. -/
theorem leaves_aside_ask {α : Type} {op : Port} {f : op.Reply → Domain.Action α}
    (hop : ∀ r : op.Reply, notes ⟨op, r⟩ = [])
    (hf : ∀ r, Leaves (f r) (fun items _ => AllAside creation items)
      fun items _ => AllAside creation items) :
    Leaves (Action.ask op >>= f) (fun items _ => AllAside creation items)
      fun items _ => AllAside creation items := by
  apply Interaction.Action.Outputs.bind (Interaction.Action.outputs_call
    (Q := fun items _ => items = []) fun r _ => hop r)
  rintro _ r rfl
  exact hf r

theorem leaves_releaseLease {u : UseCasePorts} {caller : CallerContext}
    {fileSource recordId : String} {renewer : Nat} :
    Leaves (releaseLease u caller fileSource recordId renewer)
      (fun items _ => AllAside creation items) fun items _ => AllAside creation items := by
  apply leaves_aside_ask fun _ => rfl
  intro _
  apply leaves_aside_ask fun _ => rfl
  intro released
  cases released with
  | ok a => exact Interaction.Action.outputs_pure fun _ hitem => (List.not_mem_nil hitem).elim
  | error e => exact leaves_warning (by decide) (by decide)

/-- A destructor with no notes to the point. -/
theorem Sorts.destructing {α : Type} {settled : α → Bool} {x : Domain.Action α}
    {destructor : Domain.Action Unit} (hx : Sorts settled x)
    (hd : Leaves destructor (fun items _ => AllAside creation items)
      fun items _ => AllAside creation items) : Sorts settled (x.destructing destructor) := by
  have hafter : Program.Outputs notes (fun _ _ => True) destructor.run fun items _ =>
      AllAside creation items :=
    Program.Outputs.imp hd fun items out h => by
      cases out <;> exact h
  have hrest : ∀ (before : List Note) (out : Except Exit α),
      (match out with
        | .ok a => AllAside creation before ∧ settled a = false ∨
            Spoilt creation before ∧ settled a = true
        | .error _ => AllAside creation before ∨ Spoilt creation before) →
      Leaves (ExceptT.mk (destructor.run >>= fun _ => .ret out))
        (fun items a => AllAside creation (before ++ items) ∧ settled a = false ∨
          Spoilt creation (before ++ items) ∧ settled a = true)
        fun items _ => AllAside creation (before ++ items) ∨ Spoilt creation (before ++ items) := by
    intro before out hbefore
    refine Program.Outputs.bind hafter fun after _ hafter => Program.outputs_pure ?_
    rw [List.append_nil]
    cases out with
    | ok a => exact hbefore.imp (fun h => ⟨h.1.append hafter, h.2⟩) fun h => ⟨h.1.append, h.2⟩
    | error exit => exact hbefore.imp (fun h => h.append hafter) Spoilt.append
  apply Interaction.Action.Outputs.exitingWith hx
  · exact fun before a hbefore => hrest before (.ok a) hbefore
  · intro before exit hbefore
    cases exit with
    | diverged => exact Interaction.Action.outputs_throw (by simpa using hbefore)
    | error e => exact hrest before (.error (.error e)) hbefore
    | exception what => exact hrest before (.error (.exception what)) hbefore

theorem sorts_registerUnderLease : Sorts isExisting job.registerUnderLease := by
  unfold CreateJob.registerUnderLease
  split
  · apply sorts_calls (calls_attempt calls_ensureLeaseOwnership)
    intro owned
    cases owned with
    | error e => exact sorts_abortWith _ _
    | ok a =>
      apply sorts_ask fun _ => rfl
      intro renewer
      exact sorts_registerLeased.destructing leaves_releaseLease
  · exact sorts_register

end Register

section Complete
variable {job : CreateJob} {location : FileLocation} {source target : ObjectRef}

theorem sorts_removeStaging {recordId : String} :
    Sorts (fun _ => false) (job.removeStaging recordId source) := by
  apply sorts_ask fun _ => rfl
  intro store
  cases store with
  | error e => exact sorts_pure rfl
  | ok store =>
    apply sorts_ask fun _ => rfl
    intro removed
    cases removed with
    | ok a => exact sorts_pure rfl
    | error e => exact sorts_warning (by decide) (by decide)

theorem sorts_publishCreated {record : FileMetadataRecord} :
    Sorts (fun _ => false) (job.publishCreated record location source target) := by
  unfold CreateJob.publishCreated
  apply sorts_calls (calls_publishStatus (by decide))
  intro _
  apply sorts_calls calls_publishDatasetDetails
  intro _
  apply sorts_ask fun _ => rfl
  intro now
  apply sorts_ask fun _ => rfl
  intro _
  dsimp only
  split
  · exact sorts_bind sorts_removeStaging fun _ => sorts_pure rfl
  · exact sorts_pure rfl

theorem sorts_complete : Sorts (fun out => out.1.isNone) job.complete := by
  apply Interaction.Action.Outputs.bind sorts_registerUnderLease
  rintro before registration (⟨haside, hregistration⟩ | ⟨hspoilt, hregistration⟩)
  · cases registration with
    | existing recordId => cases hregistration
    | created record location source target =>
      apply Sorts.after haside
      exact sorts_map sorts_publishCreated fun _ => rfl
  · cases registration with
    | existing recordId => exact Interaction.Action.outputs_pure (.inr ⟨by simpa using hspoilt, rfl⟩)
    | created record location source target => cases hregistration

variable {u : UseCasePorts} {caller : CallerContext}

/-- The answer with an existing record, after the note that one was found. -/
theorem leaves_existing {existing : FileMetadataRecord} :
    Leaves (do return (none, ← returnExistingRecord u caller existing))
      (fun items (out : Option String × String) => Reported items ∧ out.1.isNone = true)
      fun items _ => Reported items := by
  apply Interaction.Action.Outputs.bind leaves_returnExistingRecord
  intro before id hreported
  exact Interaction.Action.outputs_pure ⟨by simpa using hreported, rfl⟩

/-- Another creation holds the claim: wait for its record, or give up. -/
theorem sorts_pollExistingClaim {fileSource : String} {deadline : Int} (polls : Nat) :
    Sorts (fun _ => true) (pollExistingClaim u caller fileSource deadline polls) := by
  induction polls with
  | zero => exact sorts_throw _
  | succ polls ih =>
    apply sorts_lookup
    · exact fun existing => leaves_returnExistingRecord.imp (fun _ _ h => ⟨h, rfl⟩) fun _ _ h => h
    · intro e
      apply sorts_ask fun _ => rfl
      intro now
      split
      · exact sorts_throw _
      · exact sorts_ask (fun _ => rfl) fun _ => ih

theorem sorts_waitForExistingClaim (polls : Nat) {fileSource : String} :
    Sorts (fun out => out.1.isNone) (do
      return ((none : Option String), ← waitForExistingClaim polls u caller fileSource)) := by
  apply sorts_ask fun _ => rfl
  intro now
  exact sorts_map (sorts_pollExistingClaim polls) fun _ => rfl

theorem sorts_claimAndComplete (polls : Nat) {out : FileMetadataRecord} :
    Sorts (fun out => out.1.isNone) (claimAndComplete polls u caller out) := by
  apply sorts_reply
  intro r
  cases r with
  | error e => exact sorts_throw _
  | ok claim =>
    obtain ⟨claimed, held, state⟩ := claim
    cases claimed with
    | true => exact sorts_complete
    | false =>
      cases state with
      | ready =>
        exact leaves_existing.imp (fun _ _ h => .inr ⟨spoilt_of_existing h.1, h.2⟩)
          fun _ _ h => .inr (spoilt_of_existing h)
      | claiming => exact sorts_waitForExistingClaim polls
      | deleted => exact sorts_throw _

/-- The body of a creation, without its access record. -/
theorem sorts_created (polls : Nat) {record : FileMetadataRecord} :
    Sorts (fun out => out.1.isNone) (do
      checkRequest caller record
      let uuid ← Action.ask .newUuidNoDash
      let out := newRecord caller record uuid
      match ← Action.ask (.metadata
        (.getLatestByFileSource caller.partition record.fileSource)) with
      | .ok existing => return (none, ← returnExistingRecord u caller existing)
      | .error _ =>
        let capabilities ← Action.ask .metadataCapabilities
        if capabilities.atomicClaim then claimAndComplete polls u caller out
        else CreateJob.complete { u, caller, out, claim := none }) := by
  apply sorts_calls calls_checkRequest
  intro _
  apply sorts_ask fun _ => rfl
  intro uuid
  apply sorts_lookup
  · exact fun existing => leaves_existing
  · intro e
    apply sorts_ask fun _ => rfl
    intro capabilities
    split
    · exact sorts_claimAndComplete polls
    · exact sorts_complete

/-- `CreateFileMetadata` under its guard. -/
theorem leaves_createFileMetadata (polls : Nat) {record : FileMetadataRecord} :
    Leaves (createFileMetadata polls u caller record)
      (fun items _ => Settles u creation items true)
      fun items exit => exit ≠ .diverged → Settles u creation items false := by
  apply settles_audited
  exact (sorts_created polls).imp
    (fun items out h => h.imp (fun h => ⟨h.1, by simpa using h.2⟩) fun h => h.1) fun _ _ h => h

end Complete

end FileService.Audit
