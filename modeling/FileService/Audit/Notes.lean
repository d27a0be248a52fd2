import FileService.App.Support
import FileService.Domain.Effects
import FileService.Interaction.Reliance

/-!
# What a run tells about its audit

The notes of a run are the audit events it handed to the audit port, and the
places where a creation ends at an existing record or takes its object back.
The rules say which notes the parts of a use case leave.
-/
namespace FileService.Audit
open FileService.Common FileService.Domain FileService.Interaction FileService.App

inductive Note where
  | audit (event : AuditEvent) (recorded : Bool)
  | existing
  | rollback
deriving DecidableEq

/-- The notes that a call leaves. -/
def notes (o : Occurrence ports) : List Note :=
  match o with
  | ⟨.service (.recordAudit event), r⟩ => [.audit event (Result.isOk r)]
  | ⟨.service (.publishStatusChanged _ event), _⟩ =>
    if event.status = "FAILED" then [.rollback] else []
  | ⟨.metadata (.getLatestByFileSource ..), .ok _⟩ => [.existing]
  | ⟨.metadata (.claimForWrite ..), .ok claim⟩ =>
    if claim.claimed = false ∧ claim.state = .ready then [.existing] else []
  | _ => []

/-- The operation of `CreateFileMetadata`. -/
def creation : String := "createMetadata"

/-- An event that tells how an operation came out. -/
def isOutcome (operation : String) (event : AuditEvent) : Bool :=
  event.operation == operation ++ "Success" || event.operation == operation ++ "Failure"

def Note.outcome? (operation : String) : Note → Option AuditEvent
  | .audit event _ => if isOutcome operation event then some event else none
  | _ => none

/-- The outcome events of an operation, in the order in which they were handed over. -/
def outcomes (operation : String) (items : List Note) : List AuditEvent :=
  items.filterMap (Note.outcome? operation)

/-- A creation that answers with an existing record, or that takes its object back. -/
def Doubles (operation : String) (items : List Note) : Prop :=
  operation = creation ∧ (.existing ∈ items ∨ .rollback ∈ items)

instance (operation : String) (items : List Note) : Decidable (Doubles operation items) :=
  inferInstanceAs (Decidable (_ ∧ _))

/-- The audit port refused the success event of the operation. -/
def SuccessRefused (operation : String) (items : List Note) : Prop :=
  ∃ event, .audit event false ∈ items ∧ event.operation = operation ++ "Success"

/-- Exactly one outcome event. It is a success exactly if the call succeeded, or failed only
because its success event was refused and must not be. -/
def AuditedOnce (u : UseCasePorts) (operation : String) (items : List Note) (succeeded : Bool) :
    Prop :=
  ∃ event, outcomes operation items = [event] ∧ (event.result = "success" ↔
    succeeded = true ∨ u.auditFailClosed = true ∧ SuccessRefused operation items)

/-- A note that is no matter for the audit of the operation. -/
def Note.Aside (operation : String) : Note → Prop
  | .audit event _ => isOutcome operation event = false
  | .existing | .rollback => operation ≠ creation

abbrev AllAside (operation : String) (items : List Note) : Prop :=
  ∀ item ∈ items, item.Aside operation

/-- The notes of a creation that is audited twice. -/
def Spoilt (operation : String) (items : List Note) : Prop :=
  Doubles operation items ∧ outcomes operation items ≠ []

section Lists
variable {operation : String} {items later : List Note} {event : AuditEvent} {recorded : Bool}

@[simp] theorem outcomes_append :
    outcomes operation (items ++ later) = outcomes operation items ++ outcomes operation later :=
  List.filterMap_append

theorem outcomes_aside (h : AllAside operation items) : outcomes operation items = [] := by
  rw [outcomes, List.filterMap_eq_nil_iff]
  intro item hitem
  have haside := h item hitem
  cases item with
  | audit event recorded => exact if_neg (by simpa [Note.Aside] using haside)
  | existing => rfl
  | rollback => rfl

theorem outcomes_singleton (h : isOutcome operation event = true) :
    outcomes operation [.audit event recorded] = [event] := by
  simp [outcomes, Note.outcome?, h]

theorem AllAside.append (h : AllAside operation items) (hlater : AllAside operation later) :
    AllAside operation (items ++ later) := by
  intro item hitem
  rcases List.mem_append.mp hitem with hitem | hitem
  · exact h item hitem
  · exact hlater item hitem

theorem Spoilt.append (h : Spoilt operation items) : Spoilt operation (items ++ later) := by
  obtain ⟨⟨hcreation, hmem⟩, houtcomes⟩ := h
  refine ⟨⟨hcreation, hmem.imp ?_ ?_⟩, by simp [houtcomes]⟩ <;>
    exact fun h => List.mem_append_left _ h

theorem Spoilt.prepend (h : Spoilt operation later) : Spoilt operation (items ++ later) := by
  obtain ⟨⟨hcreation, hmem⟩, houtcomes⟩ := h
  refine ⟨⟨hcreation, hmem.imp ?_ ?_⟩, by simp [houtcomes]⟩ <;>
    exact fun h => List.mem_append_right _ h

theorem isOutcome_success (h : event.operation = operation ++ "Success") :
    isOutcome operation event = true := by
  simp [isOutcome, h]

theorem isOutcome_failure (h : event.operation = operation ++ "Failure") :
    isOutcome operation event = true := by
  simp [isOutcome, h]

theorem success_ne_failure (operation : String) : operation ++ "Success" ≠ operation ++ "Failure" := by
  intro h
  have hlist := congrArg String.toList h
  simp at hlist

theorem not_doubles_of_aside (h : AllAside operation items) : ¬Doubles operation items := by
  rintro ⟨hcreation, hmem | hmem⟩
  · exact h _ hmem hcreation
  · exact h _ hmem hcreation

theorem not_successRefused_of_aside (h : AllAside operation items) :
    ¬SuccessRefused operation items := by
  rintro ⟨event, hmem, hoperation⟩
  have haside : isOutcome operation event = false := h _ hmem
  rw [isOutcome_success hoperation] at haside
  cases haside

/-- A further outcome event is one too many. -/
theorem not_auditedOnce_of_spoilt {u : UseCasePorts} (h : Spoilt operation items)
    (hevent : isOutcome operation event = true) {succeeded : Bool} :
    ¬AuditedOnce u operation (items ++ [.audit event recorded]) succeeded := by
  rintro ⟨only, honly, -⟩
  rw [outcomes_append, outcomes_singleton hevent] at honly
  have hlength := congrArg List.length honly
  simp only [List.length_append, List.length_singleton] at hlength
  exact h.2 (List.length_eq_zero_iff.mp (by omega))

theorem Spoilt.doubles (h : Spoilt operation items) : Doubles operation items := h.1

end Lists

/-- Calls that leave no note that matters for the audit of the operation. -/
def Harmless (operation : String) (op : Port) : Prop :=
  ∀ r : op.Reply, AllAside operation (notes ⟨op, r⟩)

theorem harmless_of_nil {operation : String} {op : Port} (h : ∀ r : op.Reply, notes ⟨op, r⟩ = []) :
    Harmless operation op := by
  intro r item hitem
  rw [h r] at hitem
  cases hitem

/-- An action that makes harmless calls only. -/
abbrev Calls {α : Type} (operation : String) (Q : α → Prop) (x : Domain.Action α) : Prop :=
  Interaction.Action.Relies (fun _ _ => True) (Harmless operation) Q x

/-- What is known of the notes of an action, where it returns and where it exits. -/
abbrev Leaves {α : Type} (x : Domain.Action α) (Q : List Note → α → Prop)
    (E : List Note → Exit → Prop) : Prop :=
  Interaction.Action.Outputs notes (fun _ _ => True) x Q E

section Rules
variable {operation : String} {α β : Type} {x : Domain.Action α} {Q : α → Prop} {P : β → Prop}

theorem calls_pure {a : α} (h : Q a) : Calls operation Q (pure a) :=
  Interaction.Action.relies_pure h

theorem calls_fail (e : Error) : Calls operation Q (Action.fail e) :=
  Interaction.Action.relies_throw

theorem calls_throw (exit : Exit) : Calls operation Q (throw exit : Domain.Action α) :=
  Interaction.Action.relies_throw

theorem calls_bind {f : α → Domain.Action β} (hx : Calls operation (fun _ => True) x)
    (hf : ∀ a, Calls operation P (f a)) : Calls operation P (x >>= f) :=
  Interaction.Action.relies_bind hx fun a _ => hf a

theorem calls_ask {op : Port} (h : ∀ r : op.Reply, notes ⟨op, r⟩ = []) :
    Calls operation (fun _ => True) (Action.ask op) :=
  Domain.Action.relies_ask (harmless_of_nil h)

theorem calls_tryResult (r : Result α) : Calls operation (fun _ => True) (Action.tryResult r) :=
  (Domain.Action.relies_tryResult r).imp fun _ _ => trivial

theorem calls_attempt (hx : Calls operation (fun _ => True) x) :
    Calls operation (fun _ => True) (Action.attempt x) :=
  (Domain.Action.relies_attempt hx).imp fun _ _ => trivial

theorem Calls.leaves (hx : Calls operation Q x) :
    Leaves x (fun items a => AllAside operation items ∧ Q a) fun items _ => AllAside operation items :=
  hx.outputs fun _ r hop _ => hop r

end Rules

section Recording
variable {u : UseCasePorts} {caller : CallerContext} {operation objectId : String} {success : Bool}

/-- A single event with this operation and result. -/
def Records (operation : String) (success recorded : Bool) (items : List Note) : Prop :=
  ∃ event, items = [.audit event recorded] ∧ event.operation = operation ∧
    event.result = if success then "success" else "failure"

/-- `RecordAudit` hands over one event; it fails exactly if the event is refused and must not be. -/
theorem leaves_recordAudit :
    Leaves (recordAudit u operation caller objectId success)
      (fun items _ => ∃ recorded, Records operation success recorded items ∧
        (recorded = true ∨ u.auditFailClosed = false))
      (fun items exit => Records operation success false items ∧ u.auditFailClosed = true ∧
        ∃ e, exit = .error e) := by
  apply Interaction.Action.Outputs.bind (Interaction.Action.outputs_call
    (Q := fun items _ => items = []) fun _ _ => rfl)
  rintro _ millis rfl
  apply Interaction.Action.Outputs.bind (Interaction.Action.outputs_call (Q := fun items r =>
    Records operation success (Result.isOk r) items) fun r _ => ⟨_, rfl, rfl, rfl⟩)
  intro before r hrecords
  cases r with
  | ok a => exact Interaction.Action.outputs_pure ⟨true, by simpa using hrecords, .inl rfl⟩
  | error e =>
    dsimp only
    cases hclosed : u.auditFailClosed with
    | true => exact Interaction.Action.outputs_throw ⟨by simpa using hrecords, rfl, _, rfl⟩
    | false => exact Interaction.Action.outputs_pure ⟨false, by simpa using hrecords, .inr rfl⟩

theorem leaves_recordFailure :
    Leaves (recordFailure u operation caller objectId)
      (fun items _ => ∃ recorded, Records operation false recorded items) fun _ _ => False := by
  apply Interaction.Action.Outputs.bind (Q := fun items _ =>
    ∃ recorded, Records operation false recorded items)
  · apply Interaction.Action.Outputs.exitingWith leaves_recordAudit
    · rintro before a ⟨recorded, hrecords, -⟩
      exact Interaction.Action.outputs_pure ⟨recorded, by simpa using hrecords⟩
    · rintro before exit ⟨hrecords, -, e, rfl⟩
      exact Interaction.Action.outputs_pure ⟨false, by simpa using hrecords⟩
  · intro before r hrecords
    exact Interaction.Action.outputs_pure (by simpa using hrecords)

/-- One outcome event, unless the creation recorded one by itself. -/
def Settles (u : UseCasePorts) (operation : String) (items : List Note) (succeeded : Bool) : Prop :=
  AuditedOnce u operation items succeeded ↔ ¬Doubles operation items

variable {before last : List Note} {recorded succeeded : Bool}

theorem doubles_append_audit {event : AuditEvent} :
    Doubles operation (before ++ [.audit event recorded]) ↔ Doubles operation before := by
  simp [Doubles]

theorem successRefused_append_audit (h : AllAside operation before) {event : AuditEvent} :
    SuccessRefused operation (before ++ [.audit event recorded]) ↔
      recorded = false ∧ event.operation = operation ++ "Success" := by
  constructor
  · rintro ⟨other, hmem, hoperation⟩
    rcases List.mem_append.mp hmem with hmem | hmem
    · exact absurd ⟨other, hmem, hoperation⟩ (not_successRefused_of_aside h)
    · cases List.mem_singleton.mp hmem
      exact ⟨rfl, hoperation⟩
  · rintro ⟨rfl, hoperation⟩
    exact ⟨event, by simp, hoperation⟩

theorem settles_spoilt (h : Spoilt operation before)
    (hlast : Records (operation ++ "Success") success recorded last ∨
      Records (operation ++ "Failure") success recorded last) :
    Settles u operation (before ++ last) succeeded := by
  have hevent : ∃ event, last = [.audit event recorded] ∧ isOutcome operation event = true := by
    rcases hlast with ⟨event, rfl, hoperation, -⟩ | ⟨event, rfl, hoperation, -⟩
    · exact ⟨event, rfl, isOutcome_success hoperation⟩
    · exact ⟨event, rfl, isOutcome_failure hoperation⟩
  obtain ⟨event, rfl, houtcome⟩ := hevent
  constructor
  · intro honce
    exact absurd honce (not_auditedOnce_of_spoilt h houtcome)
  · intro hdoubles
    exact absurd (doubles_append_audit.mpr h.doubles) hdoubles

/-- Notes that end with the only outcome event. -/
theorem settles_append {event : AuditEvent} (h : AllAside operation before)
    (hevent : isOutcome operation event = true)
    (hresult : event.result = "success" ↔ succeeded = true ∨
      u.auditFailClosed = true ∧ recorded = false ∧ event.operation = operation ++ "Success") :
    Settles u operation (before ++ [.audit event recorded]) succeeded := by
  have honce : AuditedOnce u operation (before ++ [.audit event recorded]) succeeded := by
    refine ⟨event, ?_, ?_⟩
    · rw [outcomes_append, outcomes_aside h, outcomes_singleton hevent, List.nil_append]
    · rw [successRefused_append_audit h]
      exact hresult
  have hdoubles : ¬Doubles operation (before ++ [.audit event recorded]) := by
    rw [doubles_append_audit]
    exact not_doubles_of_aside h
  exact iff_of_true honce hdoubles

theorem settles_failure (h : AllAside operation before)
    (hlast : Records (operation ++ "Failure") false recorded last) :
    Settles u operation (before ++ last) false := by
  obtain ⟨event, rfl, hoperation, hresult⟩ := hlast
  apply settles_append h (isOutcome_failure hoperation)
  simp [hresult, hoperation, (success_ne_failure operation).symm]

theorem settles_success (h : AllAside operation before)
    (hlast : Records (operation ++ "Success") true recorded last)
    (hsucceeded : succeeded = true ↔ recorded = true ∨ u.auditFailClosed = false) :
    Settles u operation (before ++ last) succeeded := by
  obtain ⟨event, rfl, hoperation, hresult⟩ := hlast
  apply settles_append h (isOutcome_success hoperation)
  rw [hsucceeded]
  cases recorded <;> cases u.auditFailClosed <;> simp [hresult, hoperation]

/-- The guard around a use case adds the one outcome event, if its body leaves none. -/
theorem settles_audited {α : Type} {body : Domain.Action (Option String × α)}
    (hbody : Leaves body (fun items out => AllAside operation items ∧ out.1.isSome = true ∨
      Spoilt operation items) fun items _ => AllAside operation items ∨ Spoilt operation items) :
    Leaves (audited u caller operation objectId body)
      (fun items _ => Settles u operation items true)
      fun items exit => exit ≠ .diverged → Settles u operation items false := by
  have hfailed : ∀ before exit, AllAside operation before ∨ Spoilt operation before →
      Leaves (recordFailure u (operation ++ "Failure") caller objectId >>= fun _ =>
        (throw exit : Domain.Action α)) (fun items _ => Settles u operation (before ++ items) true)
        fun items exit => exit ≠ .diverged → Settles u operation (before ++ items) false := by
    intro before exit hbefore
    apply Interaction.Action.Outputs.bind (leaves_recordFailure.imp (fun _ _ h => h)
      fun _ _ => False.elim)
    rintro last _ ⟨recorded, hlast⟩
    apply Interaction.Action.outputs_throw
    intro _
    rw [List.append_nil]
    rcases hbefore with haside | hspoilt
    · exact settles_failure haside hlast
    · exact settles_spoilt hspoilt (.inr hlast)
  apply Interaction.Action.Outputs.exitingWith hbody
  · rintro before ⟨successId, a⟩ hbefore
    cases successId with
    | none =>
      have hspoilt : Spoilt operation before := by simpa using hbefore
      apply Interaction.Action.Outputs.bind (leaves_recordFailure.imp (fun _ _ h => h)
        fun _ _ => False.elim)
      rintro last _ ⟨recorded, hlast⟩
      apply Interaction.Action.outputs_pure
      rw [List.append_nil]
      exact settles_spoilt hspoilt (.inr hlast)
    | some id =>
      have hsucceeded : ∀ last recorded succeeded, Records (operation ++ "Success") true recorded last →
          (succeeded = true ↔ recorded = true ∨ u.auditFailClosed = false) →
          Settles u operation (before ++ last) succeeded := by
        intro last recorded succeeded hlast hiff
        rcases hbefore with ⟨haside, -⟩ | hspoilt
        · exact settles_success haside hlast hiff
        · exact settles_spoilt hspoilt (.inl hlast)
      apply Interaction.Action.Outputs.bind (leaves_recordAudit.imp (fun _ _ h => h)
        fun last exit ⟨hlast, hclosed, _⟩ _ => hsucceeded last false false hlast (by simp [hclosed]))
      rintro last _ ⟨recorded, hlast, hkept⟩
      apply Interaction.Action.outputs_pure
      rw [List.append_nil]
      exact hsucceeded last recorded true hlast (by simp [hkept])
  · intro before exit hbefore
    cases exit with
    | diverged => exact Interaction.Action.outputs_throw fun hne => absurd rfl hne
    | error e => exact hfailed before _ hbefore
    | exception what => exact hfailed before _ hbefore

end Recording

end FileService.Audit
