import FileService.App.Queries
import FileService.Interaction.Embedding
import FileService.Safety.IssuedSources
import FileService.Safety.LeaseRounds

/-!
# Leases of issued upload addresses

Two use cases issue upload addresses. `GetUploadLocation` takes a lease
afterwards, and where it is refused one it undoes the issue as far as the calls
of the undo do not fail. `GetStorageInstructions` makes no call on the leases.
-/
namespace FileService.Safety.UploadCoverage
open FileService.Common FileService.Domain FileService.Interaction FileService.App
open FileService.Infra FileService.Domain.World FileService.Safety.LeaseStage
open FileService.Safety.IssuedSources (Names)

/-! ## Calls beside the leases -/

/-- Calls that touch neither the leases nor the clock. -/
def Unleased : Port → Prop
  | .leases _ | .renewer _ | .sleepFor _ => False
  | _ => True

/-- Calls that moreover change no record, no location and no object. -/
def Looking (op : Port) : Prop := Unleased op ∧ op.Quiet

/-- The calls that write an audit event. -/
def Auditing : Port → Prop
  | .nowEpochMillis | .service _ => True
  | _ => False

theorem Auditing.looking {op : Port} (h : Auditing op) : Looking op := by
  cases op <;> first | exact False.elim h | exact ⟨trivial, trivial⟩

/-- Every call of the action is one of these. -/
abbrev Within {α : Type} (K : Port → Prop) (x : Domain.Action α) : Prop :=
  x.run.Uses K fun _ => True

section Within
variable {α β : Type} {K : Port → Prop} {x : Domain.Action α} {op : Port}

theorem within_pure (a : α) : Within K (pure a) := trivial

theorem within_fail (e : Error) : Within K (Action.fail e : Domain.Action α) := trivial

theorem within_throw (exit : Exit) : Within K (throw exit : Domain.Action α) := trivial

theorem Within.bind {f : α → Domain.Action β} (hx : Within K x) (hf : ∀ a, Within K (f a)) :
    Within K (x >>= f) :=
  Program.uses_bind hx fun out _ => by
    cases out with
    | ok a => exact hf a
    | error e => trivial

theorem within_ask (h : K op) : Within K (Action.ask op) := ⟨h, fun _ => trivial⟩

theorem within_tryResult (r : Result α) : Within K (Action.tryResult r) := by
  cases r <;> trivial

/-- A call, and the value of its result. -/
theorem within_askTry {V : Type} {g : op.Reply → Result V} {f : V → Domain.Action α}
    (hop : K op) (hf : ∀ v, Within K (f v)) :
    Within K (Action.ask op >>= fun r => Action.tryResult (g r) >>= f) :=
  Within.bind (within_ask hop) fun r => Within.bind (within_tryResult (g r)) hf

theorem within_attempt (hx : Within K x) : Within K (Action.attempt x) :=
  Program.uses_bind hx fun _ _ => trivial

theorem Within.looking (hx : Within Auditing x) : Within Looking x :=
  Program.uses_mono (fun _ h => h.looking) hx

theorem Within.unleased (hx : Within Looking x) : Within Unleased x :=
  Program.uses_mono (fun _ h => h.1) hx

end Within

section Calls
variable {options : IssuerOptions} {caller : CallerContext}
variable {partition userId : String} {requested expiryTime : Option String}

theorem within_authorizeCaller {role : String} :
    Within Looking (authorizeCaller caller role) := by
  unfold authorizeCaller
  split
  · exact within_fail _
  · exact Within.bind (within_ask ⟨trivial, trivial⟩) fun r => within_tryResult r

theorem within_chooseFileId : Within Looking (chooseFileId partition requested) := by
  unfold chooseFileId
  cases requested with
  | none => exact within_ask ⟨trivial, trivial⟩
  | some fileId =>
    dsimp only
    split_ifs
    · exact within_ask ⟨trivial, trivial⟩
    · exact within_fail _
    · refine Within.bind (within_ask ⟨trivial, trivial⟩) fun found => ?_
      cases found with
      | ok location => exact within_fail _
      | error e => exact within_pure _

theorem within_shapeSigned {location : FileLocation} {caps : BlobCapabilities} {ttl : Int}
    (signed : SignedLocation) : Within Looking (shapeSigned location caps ttl signed) := by
  unfold shapeSigned
  split
  · exact within_pure _
  · exact Within.bind (within_ask ⟨trivial, trivial⟩) fun _ => within_pure _

theorem within_signUpload {store : StoreId} {ref : ObjectRef} {location : FileLocation}
    {caps : BlobCapabilities} {ttl : Int} :
    Within Looking (signUpload options store ref location caps partition ttl) := by
  unfold signUpload
  split
  · exact within_askTry ⟨trivial, trivial⟩ within_shapeSigned
  · refine Within.bind (within_ask ⟨trivial, trivial⟩) fun now => ?_
    exact within_askTry ⟨trivial, trivial⟩ fun url => within_shapeSigned _

theorem within_placeUpload {fileId fs key : String} (r : Result String)
    (ttl : BlobCapabilities → Int) : Within Unleased
      (placeUpload options partition userId fileId fs key ttl r) := by
  unfold placeUpload
  apply Within.bind (within_tryResult r)
  intro container
  refine within_askTry trivial fun store => ?_
  refine within_askTry trivial fun _ => ?_
  refine within_askTry trivial fun _ => ?_
  refine Within.bind (within_ask trivial) fun caps => ?_
  refine Within.bind (within_ask trivial) fun now => ?_
  exact within_askTry trivial fun _ => within_signUpload.unleased

/-- An issue makes no call on the leases. -/
theorem within_issueUploadLocation :
    Within Unleased (issueUploadLocation options partition userId requested expiryTime) := by
  unfold issueUploadLocation
  dsimp only
  split
  · exact within_fail _
  split
  · exact within_fail _
  apply Within.bind (within_tryResult _)
  intro ttl
  apply Within.bind within_chooseFileId.unleased
  intro fileId
  refine Within.bind (within_ask trivial) fun nowMillis => ?_
  apply Within.bind (within_tryResult _)
  intro fs
  split
  · refine Within.bind (within_ask trivial) fun config => ?_
    exact within_placeUpload _
      fun caps => applySelfSignedTtl options ttl caps (expiryTime.getD "" ≠ "")
  · exact within_placeUpload _
      fun caps => applySelfSignedTtl options ttl caps (expiryTime.getD "" ≠ "")

theorem within_recordAudit {u : UseCasePorts} {operation objectId : String} {success : Bool} :
    Within Auditing (recordAudit u operation caller objectId success) := by
  refine Within.bind (within_ask trivial) fun millis => ?_
  refine Within.bind (within_ask trivial) fun written => ?_
  cases written with
  | ok _ => exact within_pure _
  | error e =>
    dsimp only
    split
    · exact within_fail _
    · exact within_pure _

theorem within_recordFailure {u : UseCasePorts} {operation objectId : String} :
    Within Auditing (recordFailure u operation caller objectId) :=
  Within.bind (within_attempt within_recordAudit) fun _ => within_pure _

theorem within_removeIssuedUpload {fileId : String} :
    Within Unleased (removeIssuedUpload caller fileId) := by
  have hdelete : Within Unleased (do
      let _ ← Action.ask (.locations (.delete caller.partition fileId))) :=
    Within.bind (within_ask trivial) fun _ => within_pure _
  refine Within.bind (within_ask trivial) fun stored => ?_
  cases stored with
  | error e => exact hdelete
  | ok stored =>
    have href : Within Unleased (objectRefFromLocation stored) := by
      unfold objectRefFromLocation
      split <;> trivial
    apply Within.bind (within_attempt href)
    intro ref
    cases ref with
    | error e => exact hdelete
    | ok ref =>
      refine Within.bind (within_ask trivial) fun store => ?_
      cases store with
      | error e => exact hdelete
      | ok store => exact Within.bind (within_ask trivial) fun _ => hdelete

end Calls

/-! ## Executions -/

section Executions
variable {d : Deployment} {faults : Faults} {w w' s s' : World} {α : Type} {x : Domain.Action α}
variable {t : List (Performed ports World)} {op : Port} {r : op.Reply} {out : Except Exit α}

theorem exec_unleased (hop : Unleased op) (h : Exec d faults s op r s') : SameLeases s s' := by
  have hrenewer : ∀ call, op ≠ .renewer call := by
    rintro call rfl
    exact hop
  have happly : ∀ uuid, SameLeases s (s.apply d uuid op).2 := by
    intro uuid
    cases op with
    | metadata call => cases hb : d.backend <;> simp only [apply, hb] <;> exact ⟨rfl, rfl⟩
    | leases call => exact False.elim hop
    | renewer call => exact False.elim hop
    | sleepFor millis => exact False.elim hop
    | _ => exact ⟨rfl, rfl⟩
  rcases h.outcome hrenewer with ⟨-, -, rfl⟩ | ⟨uuid, -, rfl⟩ | ⟨-, -, rfl⟩
  · exact ⟨rfl, rfl⟩
  · exact happly uuid
  · exact happly ""

/-- The calls of such an action are beside the leases, and leave them as they are. -/
theorem Within.performed (hx : Within Unleased x) (h : x.run.Performs (Exec d faults) w t out w') :
    (∀ p ∈ t, Unleased p.op) ∧ SameLeases w w' := by
  have hops := h.op_of_uses hx
  refine ⟨hops, h.invariant (fun p hp hexec hbefore => ?_) ⟨rfl, rfl⟩⟩
  obtain ⟨hleases, hnow⟩ := exec_unleased (hops p hp) hexec
  exact ⟨hleases.trans hbefore.1, hnow.trans hbefore.2⟩

/-- What looks only leaves the data as they are, too. -/
theorem Within.looked (hx : Within Looking x) (h : x.run.Performs (Exec d faults) w t out w') :
    (∀ p ∈ t, Looking p.op) ∧ SameData w w' := by
  have hops := h.op_of_uses hx
  refine ⟨hops, h.invariant (fun p hp hexec hbefore => ?_) (SameData.refl w)⟩
  have hsame := hexec.quiet (hops p hp).2
  exact
    { metadata := hsame.metadata.trans hbefore.metadata
      remote := hsame.remote.trans hbefore.remote
      locations := hsame.locations.trans hbefore.locations
      object := fun store ref => (hsame.object store ref).trans (hbefore.object store ref) }

theorem emits_of_performs {p : Program ports α} {a : α} (h : p.Performs (Exec d faults) w t a w') :
    p.Emits (t.map fun p => ⟨p.op, p.reply⟩) a := by
  induction p generalizing w t with
  | ret b =>
    obtain ⟨rfl, rfl, -⟩ := h
    exact ⟨rfl, rfl⟩
  | call op next ih =>
    obtain ⟨r, w₁, rest, -, rfl, hrest⟩ := h
    exact ⟨r, rest.map fun p => ⟨p.op, p.reply⟩, rfl, ih r hrest⟩

theorem returns_tryResult {r : Result α} {a : α} :
    Action.Returns (Exec d faults) (Action.tryResult r) w t a w' ↔
      t = [] ∧ r = .ok a ∧ w' = w := by
  cases r with
  | ok b =>
    apply Action.returns_pure.trans
    simp [eq_comm]
  | error e =>
    apply (iff_false_intro Action.not_returns_throw).trans
    simp

/-- An action that begins with a call for a value has got one. -/
theorem returns_askTry {V : Type} {g : op.Reply → Result V} {f : V → Domain.Action α} {a : α}
    (h : Action.Returns (Exec d faults) (Action.ask op >>= fun r => Action.tryResult (g r) >>= f)
      w t a w') : ∃ r v w₁ rest, Exec d faults w op r w₁ ∧ g r = .ok v ∧
        t = ⟨w, op, r, w₁⟩ :: rest ∧ Action.Returns (Exec d faults) (f v) w₁ rest a w' := by
  obtain ⟨r, w₁, rest, hexec, ht, hrest⟩ := Action.returns_call_bind.mp h
  obtain ⟨before, v, w₂, after, rfl, htry, hafter⟩ := Action.returns_bind.mp hrest
  obtain ⟨rfl, hv, rfl⟩ := returns_tryResult.mp htry
  exact ⟨r, v, w₂, after, hexec, hv, ht, hafter⟩

theorem exec_forPartition_ok {partition : String} {zone : StorageZone} {store : StoreId}
    (h : Exec d faults s (.forPartition partition zone) (.ok store) s') :
    store = d.store partition zone ∧ s' = s := by
  rcases h.outcome (by simp) with ⟨hr, -, -⟩ | ⟨uuid, hr, rfl⟩ | ⟨hr, -, -⟩
  · cases hr
  · exact ⟨Except.ok.inj hr, rfl⟩
  · cases hr

theorem exec_put_ok {store : StoreId} {ref : ObjectRef} {data : Bytes} {options : PutOptions} {u : Unit}
    (h : Exec d faults s (.blobs store (.put ref data options)) (.ok u) s') :
    (s'.object store ref).isSome = true := by
  rcases h.put with ⟨-, e, hr⟩ | ⟨o, -, hobjects⟩
  · cases hr
  · rw [hobjects, if_pos ⟨rfl, rfl, rfl⟩, Option.isSome_some]

theorem exec_save_ok {partition : String} {location : FileLocation} {u : Unit}
    (h : Exec d faults s (.locations (.save partition location)) (.ok u) s') :
    s'.locations.byFileId partition location.fileId = some location ∧
      ∀ store ref, s'.object store ref = s.object store ref := by
  constructor
  · rcases h.saveLocation with ⟨-, e, hr⟩ | ⟨hfs, hfree, hput⟩
    · cases hr
    · rw [hput, InMemoryLocationRepository.byFileId_put, if_pos ⟨rfl, rfl⟩]
  · rcases h.outcome (by simp) with ⟨hr, -, -⟩ | ⟨uuid, -, rfl⟩ | ⟨hr, -, -⟩
    · cases hr
    · exact fun _ _ => rfl
    · cases hr

end Executions

/-! ## Issues -/

/-- No call stores another object or saves another location record. -/
def MakesOnly (store : StoreId) (ref : ObjectRef) (location : FileLocation) : Port → Prop
  | .blobs s (.put r _ _) => s = store ∧ r = ref
  | .locations (.save _ l) => l = location
  | _ => True

section Issue
variable {d : Deployment} {faults : Faults} {w w' : World} {options : IssuerOptions}
variable {partition userId : String} {requested expiryTime : Option String}
variable {t : List (Performed ports World)} {result : LocationResult}

theorem makesOnly_of_looking {store : StoreId} {ref : ObjectRef} {location : FileLocation} {op : Port}
    (h : Looking op) : MakesOnly store ref location op := by
  have hquiet := h.2
  cases op with
  | blobs s call => cases call <;> first | exact trivial | exact False.elim hquiet
  | locations call => cases call <;> first | exact trivial | exact False.elim hquiet
  | _ => trivial

/-- What an issue has placed: one object and the location record that refers to it. -/
structure Placed (d : Deployment) (partition : String) (t : List (Performed ports World)) (w' : World)
    (ref : ObjectRef) (location : FileLocation) : Prop where
  only : ∀ p ∈ t, MakesOnly (d.store partition .staging) ref location p.op
  put : ∃ p ∈ t, ∃ data options, p.op = .blobs (d.store partition .staging) (.put ref data options)
  save : ∃ p ∈ t, p.op = .locations (.save partition location)
  object : (w'.object (d.store partition .staging) ref).isSome = true
  located : w'.locations.byFileId partition location.fileId = some location
  zone : location.zone = .staging
  refers : physicalRef location = .ref ref

/-- Calls that only look may come before. -/
theorem Placed.looked {before : List (Performed ports World)} {ref : ObjectRef}
    {location : FileLocation} (h : Placed d partition t w' ref location)
    (hbefore : ∀ p ∈ before, Looking p.op) : Placed d partition (before ++ t) w' ref location :=
  { h with
    only := fun p hp => (List.mem_append.mp hp).elim (fun hp => makesOnly_of_looking (hbefore p hp))
      (h.only p)
    put := by
      obtain ⟨p, hp, hput⟩ := h.put
      exact ⟨p, List.mem_append_right _ hp, hput⟩
    save := by
      obtain ⟨p, hp, hsave⟩ := h.save
      exact ⟨p, List.mem_append_right _ hp, hsave⟩ }

theorem placed_of_placeUpload {fileId fs key : String} {r : Result String}
    (ttl : BlobCapabilities → Int) (h : Action.Returns (Exec d faults)
      (placeUpload options partition userId fileId fs key ttl r) w t result w') : ∃ ref location, Placed d partition t w' ref location ∧
        Names result location.fileId location.fileSource := by
  obtain ⟨t₁, container, w₁, t₂, rfl, htry, h₁⟩ := Action.returns_bind.mp h
  obtain ⟨rfl, -, rfl⟩ := returns_tryResult.mp htry
  obtain ⟨found, store, w₂, t₃, hfor, hstore, rfl, h₂⟩ := returns_askTry h₁
  obtain ⟨_, _, w₃, t₄, hensure, -, rfl, h₃⟩ := returns_askTry h₂
  obtain ⟨written, _, w₄, t₅, hput, hwritten, rfl, h₄⟩ := returns_askTry h₃
  obtain ⟨caps, w₅, t₆, hcaps, rfl, h₅⟩ := Action.returns_call_bind.mp h₄
  obtain ⟨now, w₆, t₇, hnow, rfl, h₆⟩ := Action.returns_call_bind.mp h₅
  obtain ⟨saved, _, w₇, t₈, hsave, hsaved, rfl, hsign⟩ := returns_askTry h₆
  rw [hstore] at hfor
  rw [hwritten] at hput
  rw [hsaved] at hsave
  obtain ⟨rfl, -⟩ := exec_forPartition_ok hfor
  obtain ⟨hlooking, hsame⟩ := within_signUpload.looked hsign
  obtain ⟨hlocated, hobject⟩ := exec_save_ok hsave
  refine ⟨{ container, key }, issuedLocation fileId fs userId { container, key } caps now, ?_,
    IssuedSources.signUpload_names (emits_of_performs hsign)⟩
  constructor
  · intro p hp
    simp only [List.nil_append, List.mem_cons] at hp
    rcases hp with rfl | rfl | rfl | rfl | rfl | rfl | hp
    · trivial
    · trivial
    · exact ⟨rfl, rfl⟩
    · trivial
    · trivial
    · exact rfl
    · exact makesOnly_of_looking (hlooking p hp)
  · exact ⟨_, List.mem_cons_of_mem _ (List.mem_cons_of_mem _ List.mem_cons_self), _, _, rfl⟩
  · exact ⟨⟨w₆, .locations (.save partition
      (issuedLocation fileId fs userId { container, key } caps now)), saved, w₇⟩, by simp, rfl⟩
  · rw [hsame.object, hobject, (hnow.quiet trivial).object, (hcaps.quiet trivial).object]
    exact exec_put_ok hput
  · rw [hsame.locations]
    exact hlocated
  · rfl
  · rfl

/-- An issue that returns has placed what it names. -/
theorem placed_of_issue
    (h : Action.Returns (Exec d faults)
      (issueUploadLocation options partition userId requested expiryTime) w t result w') :
    ∃ ref location, Placed d partition t w' ref location ∧
      Names result location.fileId location.fileSource := by
  unfold issueUploadLocation at h
  dsimp only at h
  split at h
  · exact absurd h Action.not_returns_throw
  split at h
  · exact absurd h Action.not_returns_throw
  obtain ⟨t₁, ttl, w₁, t₂, rfl, htry, h₁⟩ := Action.returns_bind.mp h
  obtain ⟨rfl, -, rfl⟩ := returns_tryResult.mp htry
  obtain ⟨t₃, fileId, w₂, t₄, rfl, hchosen, h₂⟩ := Action.returns_bind.mp h₁
  obtain ⟨nowMillis, w₃, t₅, hnow, rfl, h₃⟩ := Action.returns_call_bind.mp h₂
  obtain ⟨t₆, fs, w₄, t₇, rfl, hmade, h₄⟩ := Action.returns_bind.mp h₃
  obtain ⟨rfl, -, rfl⟩ := returns_tryResult.mp hmade
  obtain ⟨hlooking, -⟩ := within_chooseFileId.looked hchosen
  have hplaced : ∃ before tail ref location, t₇ = before ++ tail ∧ (∀ p ∈ before, Looking p.op) ∧
      Placed d partition tail w' ref location ∧
        Names result location.fileId location.fileSource := by
    clear * - h₄
    split at h₄
    · obtain ⟨t₈, container, w₅, t₉, rfl, hcontainer, h₅⟩ := Action.returns_bind.mp h₄
      have hlook : Within Looking (containerFor partition .staging) :=
        Within.bind (within_ask ⟨trivial, trivial⟩) fun _ => within_pure _
      obtain ⟨ref, location, hplaced, hnames⟩ := placed_of_placeUpload
        (fun caps => applySelfSignedTtl options ttl caps (expiryTime.getD "" ≠ "")) h₅
      exact ⟨t₈, t₉, ref, location, rfl, (hlook.looked hcontainer).1, hplaced, hnames⟩
    · obtain ⟨t₈, container, w₅, t₉, rfl, hcontainer, h₅⟩ := Action.returns_bind.mp h₄
      obtain ⟨rfl, -, rfl⟩ := Action.returns_pure.mp hcontainer
      obtain ⟨ref, location, hplaced, hnames⟩ := placed_of_placeUpload
        (fun caps => applySelfSignedTtl options ttl caps (expiryTime.getD "" ≠ "")) h₅
      exact ⟨[], t₉, ref, location, rfl, by simp, hplaced, hnames⟩
  obtain ⟨before, tail, ref, location, rfl, hbefore, hplaced, hnames⟩ := hplaced
  refine ⟨ref, location, ?_, hnames⟩
  have hfront : ∀ p ∈ t₃ ++ ⟨w₂, .nowEpochMillis, nowMillis, w₄⟩ :: before, Looking p.op := by
    intro p hp
    simp only [List.mem_append, List.mem_cons] at hp
    rcases hp with hp | rfl | hp
    · exact hlooking p hp
    · exact ⟨trivial, trivial⟩
    · exact hbefore p hp
  simpa using hplaced.looked hfront

end Issue

/-! ## The undo -/

/-- A call that failed without effect. -/
def Lost (p : Performed ports World) : Prop :=
  p.after = p.before ∧ ∃ e, p.op.failed e = some p.reply

/-- The calls of `RemoveIssuedUpload`. -/
def UndoCall : Port → Prop
  | .locations (.find ..) | .locations (.delete ..) | .blobs _ (.remove _) | .forPartition .. => True
  | _ => False

section Undo
variable {d : Deployment} {faults : Faults} {s s' : World} {partition : String}
variable {ref : ObjectRef} {location : FileLocation}

/-- The location is found, or the call is lost. -/
theorem find_cases {r : Result FileLocation}
    (h : Exec d faults s (.locations (.find partition location.fileId)) r s')
    (hlocated : s.locations.byFileId partition location.fileId = some location) :
    s' = s ∧ (r = .ok location ∨ ∃ e, r = .error e) := by
  have hfind : s.locations.find partition location.fileId = .ok location :=
    InMemoryLocationRepository.find_eq_ok.mpr hlocated
  rcases h.outcome (by simp) with ⟨hr, -, rfl⟩ | ⟨uuid, rfl, rfl⟩ | ⟨hr, -, rfl⟩
  · exact ⟨rfl, .inr ⟨_, (Option.some.inj hr).symm⟩⟩
  · exact ⟨rfl, .inl hfind⟩
  · exact ⟨rfl, .inr ⟨_, (Option.some.inj hr).symm⟩⟩

theorem forPartition_cases {zone : StorageZone} {r : Result StoreId}
    (h : Exec d faults s (.forPartition partition zone) r s') :
    s' = s ∧ (r = .ok (d.store partition zone) ∨ ∃ e, r = .error e) := by
  rcases h.outcome (by simp) with ⟨hr, -, rfl⟩ | ⟨uuid, rfl, rfl⟩ | ⟨hr, -, rfl⟩
  · exact ⟨rfl, .inr ⟨_, (Option.some.inj hr).symm⟩⟩
  · exact ⟨rfl, .inl rfl⟩
  · exact ⟨rfl, .inr ⟨_, (Option.some.inj hr).symm⟩⟩

/-- A removal that is carried out takes the object away. -/
theorem object_applied_remove {store : StoreId} (uuid : String)
    (hobject : (s.object store ref).isSome = true) :
    (s.apply d uuid (.blobs store (.remove ref))).2.object store ref = none := by
  obtain ⟨o, ho⟩ := Option.isSome_iff_exists.mp hobject
  obtain ⟨hc, hk⟩ := (s.stores store).addressed ho
  have hvalid : InMemoryBlobStore.validateRef ref = .ok () := by
    simp [InMemoryBlobStore.validateRef, hc, hk]
  rcases (s.stores store).remove_cases ref with ⟨e, hrem⟩ | ⟨-, hobjects⟩
  · simp [InMemoryBlobStore.remove, hvalid] at hrem
  · refine (object_update store ref).trans ?_
    rw [if_pos rfl]
    exact (hobjects _ _).trans (if_pos ⟨rfl, rfl⟩)

/-- The object stays exactly if the call is lost. -/
theorem remove_lost_iff {store : StoreId} {r : Result Unit}
    (h : Exec d faults s (.blobs store (.remove ref)) r s')
    (hobject : (s.object store ref).isSome = true) :
    (Lost ⟨s, .blobs store (.remove ref), r, s'⟩ ↔ s'.object store ref ≠ none) ∧
      s'.locations = s.locations := by
  have hthere : s.object store ref ≠ none := Option.isSome_iff_ne_none.mp hobject
  have hgone : ∀ {uuid r}, s' = (s.apply d uuid (.blobs store (.remove ref))).2 →
      ((Lost ⟨s, .blobs store (.remove ref), r, s'⟩ ↔ s'.object store ref ≠ none) ∧
        s'.locations = s.locations) := by
    rintro uuid r rfl
    refine ⟨iff_of_false (fun hlost => hthere ?_) (not_not.mpr (object_applied_remove uuid hobject)),
      rfl⟩
    have hsame : (s.apply d uuid (.blobs store (.remove ref))).2 = s := hlost.1
    rw [← hsame]
    exact object_applied_remove uuid hobject
  rcases h.outcome (by simp) with ⟨hr, -, rfl⟩ | ⟨uuid, -, hs⟩ | ⟨-, -, hs⟩
  · exact ⟨iff_of_true ⟨rfl, _, hr⟩ hthere, rfl⟩
  · exact hgone hs
  · exact hgone hs

theorem located_applied_delete (uuid : String)
    (hlocated : s.locations.byFileId partition location.fileId = some location) :
    (s.apply d uuid (.locations (.delete partition location.fileId))).2.locations.byFileId partition
      location.fileId = none := by
  rcases s.locations.delete_cases partition location.fileId with ⟨hnone, -⟩ | ⟨old, -, -, hids, -⟩
  · rw [hnone] at hlocated
    cases hlocated
  · exact (hids _ _).trans (if_pos ⟨rfl, rfl⟩)

/-- The location record stays exactly if the call is lost. -/
theorem delete_lost_iff {r : Result Unit}
    (h : Exec d faults s (.locations (.delete partition location.fileId)) r s')
    (hlocated : s.locations.byFileId partition location.fileId = some location) :
    (Lost ⟨s, .locations (.delete partition location.fileId), r, s'⟩ ↔
      s'.locations.byFileId partition location.fileId ≠ none) ∧
      ∀ store ref, s'.object store ref = s.object store ref := by
  have hthere : s.locations.byFileId partition location.fileId ≠ none := by simp [hlocated]
  have hgone : ∀ {uuid r}, s' = (s.apply d uuid (.locations (.delete partition location.fileId))).2 →
      ((Lost ⟨s, .locations (.delete partition location.fileId), r, s'⟩ ↔
        s'.locations.byFileId partition location.fileId ≠ none) ∧
        ∀ store ref, s'.object store ref = s.object store ref) := by
    rintro uuid r rfl
    refine ⟨iff_of_false (fun hlost => hthere ?_)
      (not_not.mpr (located_applied_delete uuid hlocated)), fun _ _ => rfl⟩
    have hsame : (s.apply d uuid (.locations (.delete partition location.fileId))).2 = s := hlost.1
    rw [← hsame]
    exact located_applied_delete uuid hlocated
  rcases h.outcome (by simp) with ⟨hr, -, rfl⟩ | ⟨uuid, -, hs⟩ | ⟨-, -, hs⟩
  · exact ⟨iff_of_true ⟨rfl, _, hr⟩ hthere, fun _ _ => rfl⟩
  · exact hgone hs
  · exact hgone hs

/-- The object and the location record of an issue are gone. -/
def Gone (d : Deployment) (partition : String) (ref : ObjectRef) (location : FileLocation)
    (w : World) : Prop :=
  w.locations.byFileId partition location.fileId = none ∧
    w.object (d.store partition .staging) ref = none

variable {caller : CallerContext} {t t₀ : List (Performed ports World)} {out : Except Exit Unit}

/-- The end of the undo. -/
theorem performs_deleteIssued
    (h : (do let _ ← Action.ask (.locations (.delete partition location.fileId))
      : Domain.Action Unit).run.Performs (Exec d faults) s t out s') :
    ∃ r, Exec d faults s (.locations (.delete partition location.fileId)) r s' ∧
      t = [⟨s, .locations (.delete partition location.fileId), r, s'⟩] := by
  obtain ⟨r, s₁, rest, hexec, rfl, hrest⟩ := Program.performs_call_bind.mp h
  obtain ⟨rfl, -, rfl⟩ := hrest
  exact ⟨r, hexec, rfl⟩

/-- An undo takes away what was placed exactly if none of its calls is lost. -/
theorem gone_iff (hplaced : Placed d caller.partition t₀ s ref location)
    (h : (removeIssuedUpload caller location.fileId).run.Performs (Exec d faults) s t out s') :
    Gone d caller.partition ref location s' ↔ ∀ p ∈ t, UndoCall p.op → ¬Lost p := by
  obtain ⟨hobject, hlocated⟩ := And.intro hplaced.object hplaced.located
  -- Where the removal is not reached, the object stays.
  have hstays : ∀ (p : Performed ports World) {rest s₁}, UndoCall p.op → Lost p → s₁ = s →
      (do let _ ← Action.ask (.locations (.delete caller.partition location.fileId))
        : Domain.Action Unit).run.Performs (Exec d faults) s₁ rest out s' →
      p ∈ t → (Gone d caller.partition ref location s' ↔ ∀ p ∈ t, UndoCall p.op → ¬Lost p) := by
    rintro p rest s₁ hcall hlost rfl hdelete hp
    obtain ⟨r, hexec, -⟩ := performs_deleteIssued hdelete
    apply iff_of_false
    · rintro ⟨-, hnone⟩
      rw [(delete_lost_iff hexec hlocated).2, ← Option.not_isSome_iff_eq_none] at hnone
      exact hnone hobject
    · exact fun hnone => hnone p hp hcall hlost
  obtain ⟨found, s₁, t₁, hfind, rfl, h₁⟩ := Program.performs_call_bind.mp h
  obtain ⟨rfl, rfl | ⟨e, rfl⟩⟩ := find_cases hfind hlocated
  · have href : objectRefFromLocation location = pure ref := by
      simp only [objectRefFromLocation, hplaced.refers]
    obtain ⟨t₂, tried, s₂, t₃, rfl, hattempt, h₂⟩ := Program.performs_bind.mp h₁
    rw [href] at hattempt
    obtain ⟨rfl, rfl, rfl⟩ := hattempt
    obtain ⟨resolved, s₃, t₄, hfor, rfl, h₃⟩ := Program.performs_call_bind.mp h₂
    obtain ⟨rfl, hresolved⟩ := forPartition_cases hfor
    rw [hplaced.zone] at hresolved
    rcases hresolved with rfl | ⟨e, rfl⟩
    · obtain ⟨removed, s₄, t₅, hremove, rfl, h₄⟩ := Program.performs_call_bind.mp h₃
      obtain ⟨hremoved, hlocations⟩ := remove_lost_iff hremove hobject
      rw [← hlocations] at hlocated
      obtain ⟨r, hdelete, rfl⟩ := performs_deleteIssued h₄
      obtain ⟨hdeleted, hobjects⟩ := delete_lost_iff hdelete hlocated
      have hfound : ¬Lost ⟨s₃, .locations (.find caller.partition location.fileId), .ok location, s₃⟩ := by
        rintro ⟨-, e, he⟩
        cases he
      have hstore : ¬Lost ⟨s₃, .forPartition caller.partition location.zone,
          .ok (d.store caller.partition .staging), s₃⟩ := by
        rintro ⟨-, e, he⟩
        cases he
      simp only [List.nil_append, List.forall_mem_cons, UndoCall, hfound, hstore, hremoved, hdeleted,
        Gone, hobjects, not_not, forall_const, not_false_eq_true, true_and, and_comm,
        List.not_mem_nil, IsEmpty.forall_iff, implies_true]
    · exact hstays ⟨s₃, .forPartition caller.partition location.zone, .error e, s₃⟩ trivial
        ⟨rfl, e, rfl⟩ rfl h₃ (List.mem_cons_of_mem _ List.mem_cons_self)
  · exact hstays ⟨s₁, .locations (.find caller.partition location.fileId), .error e, s₁⟩ trivial
      ⟨rfl, e, rfl⟩ rfl h₁ List.mem_cons_self

end Undo

/-! ## Audited runs -/

section Audited
variable {d : Deployment} {faults : Faults} {w w' : World} {u : UseCasePorts} {caller : CallerContext}
variable {α : Type} {operation objectId : String} {body : Domain.Action (Option String × α)}
variable {t : List (Performed ports World)} {out : Except Exit α}

/-- What the body has done, and what the audit event made of its outcome. -/
structure AuditedRun (body : Domain.Action (Option String × α)) (d : Deployment) (faults : Faults)
    (w : World) (t : List (Performed ports World)) (out : Except Exit α) (w' : World)
    (t₁ t₂ : List (Performed ports World)) (bodyOut : Except Exit (Option String × α))
    (w₁ : World) : Prop where
  trace : t = t₁ ++ t₂
  body : body.run.Performs (Exec d faults) w t₁ bodyOut w₁
  audit : ∀ p ∈ t₂, Auditing p.op
  data : SameData w₁ w'
  leases : SameLeases w₁ w'
  returned : ∀ a, out = .ok a → ∃ id, bodyOut = .ok (id, a)

theorem auditedRun_of_performs
    (h : (audited u caller operation objectId body).run.Performs (Exec d faults) w t out w') :
    ∃ t₁ t₂ bodyOut w₁, AuditedRun body d faults w t out w' t₁ t₂ bodyOut w₁ := by
  obtain ⟨t₁, bodyOut, w₁, t₂, rfl, hbody, hafter⟩ := Program.performs_bind.mp h
  have hrest : ∀ {x : Domain.Action α}, Within Auditing x → x.run.Performs (Exec d faults) w₁ t₂ out w' →
      (∀ a, out = .ok a → ∃ id, bodyOut = .ok (id, a)) →
      AuditedRun body d faults w (t₁ ++ t₂) out w' t₁ t₂ bodyOut w₁ := fun hx hperforms hout =>
    { trace := rfl
      body := hbody
      audit := hperforms.op_of_uses hx
      data := (hx.looking.looked hperforms).2
      leases := (hx.looking.unleased.performed hperforms).2
      returned := hout }
  refine ⟨t₁, t₂, bodyOut, w₁, ?_⟩
  have hfails : ∀ exit, (do recordFailure u (operation ++ "Failure") caller objectId; throw exit
      : Domain.Action α).run.Performs (Exec d faults) w₁ t₂ out w' →
      AuditedRun body d faults w (t₁ ++ t₂) out w' t₁ t₂ bodyOut w₁ := by
    intro exit hperforms
    apply hrest (Within.bind within_recordFailure fun _ => within_throw exit) hperforms
    rintro a rfl
    obtain ⟨_, _, _, _, -, -, hthrow⟩ := Action.returns_bind.mp hperforms
    exact absurd hthrow Action.not_returns_throw
  have hreturns : ∀ {x : Domain.Action Unit} {id a}, Within Auditing x → bodyOut = .ok (id, a) →
      (do x; return a : Domain.Action α).run.Performs (Exec d faults) w₁ t₂ out w' →
      AuditedRun body d faults w (t₁ ++ t₂) out w' t₁ t₂ bodyOut w₁ := by
    intro x id a hx hbodyOut hperforms
    apply hrest (Within.bind hx fun _ => within_pure _) hperforms
    rintro b rfl
    obtain ⟨_, _, _, _, -, -, hpure⟩ := Action.returns_bind.mp hperforms
    obtain ⟨-, rfl, -⟩ := Action.returns_pure.mp hpure
    exact ⟨id, hbodyOut⟩
  rcases bodyOut with (e | what | -) | ⟨_ | successId, a⟩
  · exact hfails _ hafter
  · exact hfails _ hafter
  · have hx : Within Auditing (throw .diverged : Domain.Action α) := within_throw _
    apply hrest hx hafter
    rintro a rfl
    cases hafter.2.1
  · exact hreturns within_recordFailure rfl hafter
  · exact hreturns within_recordAudit rfl hafter

end Audited

/-! ## Coverage -/

/-- The instance holds an unexpired lease of the file source. -/
def Leased (u : UseCasePorts) (partition fs : String) (w : World) : Prop :=
  ∃ lease, w.leases.lease partition fs = some lease ∧ lease.ownerInstanceId = u.instanceId ∧
    w.nowMillis < lease.expiresAtEpochMillis

/-- A call that is refused a lease. -/
def refusedLease : Performed ports World → Bool
  | ⟨_, .leases (.acquire ..), .error _, _⟩ => true
  | _ => false

/-- No location record that was saved by these calls is left, and no object that they put. -/
def Undone (partition : String) (before : List (Performed ports World)) (w : World) : Prop :=
  ∀ p ∈ before,
    (∀ location, p.op = .locations (.save partition location) →
      w.locations.byFileId partition location.fileId = none) ∧
    ∀ store ref data options, p.op = .blobs store (.put ref data options) →
      w.object store ref = none

/-- An issued address is covered by a lease, and without one nothing remains of the issue. -/
structure Covered (u : UseCasePorts) (partition : String) (t : List (Performed ports World))
    (address : Option String) (w' : World) : Prop where
  held : ∀ fs, address = some fs → Leased u partition fs w'
  undone : ∀ before p after, t = before ++ p :: after → refusedLease p = true →
    Undone partition before w'

/-- After a refused lease no call of the undo is lost. -/
def UndoWorks (t : List (Performed ports World)) : Prop :=
  ∀ before p after, t = before ++ p :: after → refusedLease p = true →
    ∀ q ∈ after, UndoCall q.op → ¬Lost q

/-- The requests that are answered with an upload address. -/
inductive AddressRequest where
  | getUploadLocation (requestedFileId expiryTime : Option String)
  | getStorageInstructions (expiryTime : Option String)

namespace AddressRequest
variable (options : IssuerOptions) (u : UseCasePorts) (caller : CallerContext)

/-- The request leads from `w` to `w'` and is answered with the address of a file source, if it
is answered with one. -/
def Performed (d : Deployment) (faults : Faults) (w : World) (t : List (Performed ports World))
    (address : Option String) (w' : World) : AddressRequest → Prop
  | getUploadLocation requested expiryTime => ∃ out,
      (App.getUploadLocation options u caller requested expiryTime).run.Performs (Exec d faults)
        w t out w' ∧ address = out.toOption.map (·.fileSource)
  | getStorageInstructions expiryTime => ∃ out,
      (App.getStorageInstructions options u caller expiryTime).run.Performs (Exec d faults)
        w t out w' ∧ address = out.toOption.map (·.fileSource)

/-- No call of an undo is lost; where no lease is taken, the instance must have one. -/
def Meets (w : World) (t : List (Interaction.Performed ports World)) (address : Option String) :
    AddressRequest → Prop
  | getUploadLocation .. => UndoWorks t
  | getStorageInstructions _ => ∀ fs, address = some fs → Leased u caller.partition fs w

end AddressRequest

section Coverage
variable {d : Deployment} {faults : Faults} {w w' s s' : World} {u : UseCasePorts}
variable {caller : CallerContext} {t t₀ : List (Performed ports World)} {result : LocationResult}

theorem not_refused_of_unleased {p : Performed ports World} (h : Unleased p.op) :
    ¬refusedLease p = true := by
  obtain ⟨before, op, r, after⟩ := p
  cases op <;> first | exact False.elim h | simp [refusedLease]

/-- Between calls beside the leases, only this one can be refused a lease. -/
theorem eq_of_refused (front back : List (Performed ports World))
    {before after : List (Performed ports World)} {p q : Performed ports World} (h : front ++ q :: back = before ++ p :: after)
    (hp : refusedLease p = true) (hfront : ∀ p ∈ front, Unleased p.op)
    (hback : ∀ p ∈ back, Unleased p.op) : before = front ∧ p = q ∧ after = back := by
  rcases List.append_eq_append_iff.mp h with ⟨rest, rfl, hrest⟩ | ⟨rest, rfl, hrest⟩
  · cases rest with
    | nil =>
      obtain ⟨rfl, rfl⟩ := List.cons.inj hrest
      exact ⟨List.append_nil _, rfl, rfl⟩
    | cons _ rest =>
      obtain ⟨rfl, rfl⟩ := List.cons.inj hrest
      exact absurd hp (not_refused_of_unleased (hback p (by simp)))
  · cases rest with
    | nil =>
      obtain ⟨rfl, rfl⟩ := List.cons.inj hrest
      exact ⟨(List.append_nil _).symm, rfl, rfl⟩
    | cons _ rest =>
      obtain ⟨rfl, rfl⟩ := List.cons.inj hrest
      exact absurd hp (not_refused_of_unleased (hfront p (by simp)))

/-- The lease that an upload asks for. -/
def leaseCall (u : UseCasePorts) (caller : CallerContext) (fs : String) : LeaseCall :=
  .acquire caller.partition fs u.instanceId (leaseTtlMillis u)

theorem leaseTtlMillis_pos (u : UseCasePorts) : 0 < leaseTtlMillis u := by
  unfold leaseTtlMillis
  split <;> omega

theorem acquire_ok (repo : InMemoryLeaseRepository) (now ttl : Int) (partition fs owner : String)
    {lease : Lease} (h : (repo.acquire now partition fs owner ttl).1 = .ok lease) :
    lease.ownerInstanceId = owner ∧ lease.expiresAtEpochMillis = now + ttl ∧
      (repo.acquire now partition fs owner ttl).2.lease partition fs = some lease := by
  unfold InMemoryLeaseRepository.acquire at h ⊢
  dsimp only at h ⊢
  split at h
  · split_ifs at h with hheld
    cases h
    rw [if_neg hheld]
    exact ⟨rfl, rfl, by simp [InMemoryLeaseRepository.lease]⟩
  · cases h
    exact ⟨rfl, rfl, by simp [InMemoryLeaseRepository.lease]⟩

theorem leased_of_acquire {fs : String} {lease : Lease}
    (h : Exec d faults s (.leases (leaseCall u caller fs)) (.ok lease) s') :
    Leased u caller.partition fs s' := by
  rcases h.outcome (by simp) with ⟨hr, -, -⟩ | ⟨uuid, hr, rfl⟩ | ⟨hr, -, -⟩
  · cases hr
  · obtain ⟨howner, hexpires, hlease⟩ := acquire_ok s.leases s.nowMillis (leaseTtlMillis u)
      caller.partition fs u.instanceId hr.symm
    refine ⟨lease, hlease, howner, ?_⟩
    have hpos := leaseTtlMillis_pos u
    rw [hexpires]
    change s.nowMillis < _
    omega
  · cases hr

/-- An upload has got its lease, or it has undone the issue. -/
theorem performs_acquireUploadLease {out : Except Exit Unit} (hleases : leaseEnabled u = true)
    (h : (acquireUploadLease u caller result).run.Performs (Exec d faults) s t out s') :
    ∃ r s₁ rest, t = ⟨s, .leases (leaseCall u caller result.fileSource), r, s₁⟩ :: rest ∧
      SameData s s₁ ∧
      ((∃ lease, r = .ok lease) ∧ out = .ok () ∧ rest = [] ∧ s' = s₁ ∧
        Leased u caller.partition result.fileSource s' ∨
        (∃ e, r = .error e) ∧ (∃ exit, out = .error exit) ∧ ∃ undone,
          (removeIssuedUpload caller result.fileId).run.Performs (Exec d faults) s₁ rest undone s') := by
  unfold acquireUploadLease at h
  rw [hleases] at h
  obtain ⟨r, s₁, rest, hexec, rfl, hrest⟩ := Program.performs_call_bind.mp h
  refine ⟨r, s₁, rest, rfl, hexec.quiet trivial, ?_⟩
  cases r with
  | ok lease =>
    obtain ⟨rfl, rfl, rfl⟩ := hrest
    exact .inl ⟨⟨lease, rfl⟩, rfl, rfl, rfl, leased_of_acquire hexec⟩
  | error e =>
    obtain ⟨t₁, undone, s₂, t₂, rfl, hundo, hfail⟩ := Program.performs_bind.mp hrest
    have hend : t₂ = [] ∧ (∃ exit, out = .error exit) ∧ s' = s₂ := by
      cases undone with
      | ok u => exact ⟨hfail.1, ⟨_, hfail.2.1⟩, hfail.2.2⟩
      | error exit => exact ⟨hfail.1, ⟨_, hfail.2.1⟩, hfail.2.2⟩
    obtain ⟨rfl, hout, rfl⟩ := hend
    rw [List.append_nil]
    exact .inr ⟨⟨e, rfl⟩, hout, undone, hundo⟩

/-- The audit leaves what was reached. -/
theorem Leased.audited {fs : String} (h : Leased u caller.partition fs s) (hsame : SameLeases s s') :
    Leased u caller.partition fs s' := by
  obtain ⟨lease, hlease, howner, hexpires⟩ := h
  refine ⟨lease, ?_, howner, by rw [hsame.2]; exact hexpires⟩
  rw [InMemoryLeaseRepository.lease, hsame.1]
  exact hlease

/-- Nothing that an issue placed is left. -/
theorem undone_iff {ref : ObjectRef} {location : FileLocation} {before : List (Performed ports World)}
    (hplaced : Placed d caller.partition before s ref location) :
    Undone caller.partition before s' ↔ Gone d caller.partition ref location s' := by
  constructor
  · intro h
    obtain ⟨p, hp, data, options, hput⟩ := hplaced.put
    obtain ⟨q, hq, hsave⟩ := hplaced.save
    exact ⟨(h q hq).1 location hsave, (h p hp).2 _ _ _ _ hput⟩
  · rintro ⟨hlocation, hobject⟩ p hp
    constructor
    · intro l hsave
      have honly := hplaced.only p hp
      rw [hsave] at honly
      rw [show l = location from honly]
      exact hlocation
    · intro store r data options hput
      have honly := hplaced.only p hp
      rw [hput] at honly
      obtain ⟨rfl, rfl⟩ := honly
      exact hobject

theorem gone_congr {ref : ObjectRef} {location : FileLocation} (hsame : SameData s s') :
    Gone d caller.partition ref location s' ↔ Gone d caller.partition ref location s := by
  rw [Gone, Gone, hsame.locations, hsame.object]

theorem address_none {α : Type} {source : α → String} {body : Domain.Action (Option String × α)}
    {t₁ t₂ : List (Performed ports World)} {w₁ : World} {exit : Exit} {out : Except Exit α}
    (h : AuditedRun body d faults w t out w' t₁ t₂ (.error exit) w₁) :
    out.toOption.map source = none := by
  cases out with
  | error e => rfl
  | ok a =>
    obtain ⟨id, hid⟩ := h.returned a rfl
    cases hid

/-- Without a call on the leases nothing is refused. -/
theorem covered_iff_of_unleased {address : Option String} (h : ∀ p ∈ t, Unleased p.op) :
    Covered u caller.partition t address w' ↔
      ∀ fs, address = some fs → Leased u caller.partition fs w' := by
  constructor
  · exact Covered.held
  · intro hheld
    refine ⟨hheld, ?_⟩
    rintro before p after rfl hp
    exact absurd hp (not_refused_of_unleased (h p (by simp)))

theorem undoWorks_of_unleased (h : ∀ p ∈ t, Unleased p.op) : UndoWorks t := by
  rintro before p after rfl hp
  exact absurd hp (not_refused_of_unleased (h p (by simp)))

section OneCall
variable {front back : List (Performed ports World)} {q : Performed ports World}
variable {address : Option String}

/-- A call on the leases that is granted one. -/
theorem covered_iff_of_granted (hq : refusedLease q = false) (hfront : ∀ p ∈ front, Unleased p.op)
    (hback : ∀ p ∈ back, Unleased p.op)
    (hheld : ∀ fs, address = some fs → Leased u caller.partition fs w') :
    Covered u caller.partition (front ++ q :: back) address w' ↔ UndoWorks (front ++ q :: back) := by
  have hnone : ∀ {before p after}, front ++ q :: back = before ++ p :: after →
      ¬refusedLease p = true := by
    intro before p after heq hp
    obtain ⟨-, rfl, -⟩ := eq_of_refused front back heq hp hfront hback
    rw [hq] at hp
    cases hp
  apply iff_of_true
  · exact ⟨hheld, fun before p after heq hp => absurd hp (hnone heq)⟩
  · exact fun before p after heq hp => absurd hp (hnone heq)

/-- A call on the leases that is refused one, and an undo. -/
theorem covered_iff_of_refused (hfront : ∀ p ∈ front, Unleased p.op)
    (hback : ∀ p ∈ back, Unleased p.op) (hnone : address = none) (hq : refusedLease q = true)
    (hundone : Undone caller.partition front w' ↔ ∀ q ∈ back, UndoCall q.op → ¬Lost q) :
    Covered u caller.partition (front ++ q :: back) address w' ↔ UndoWorks (front ++ q :: back) := by
  constructor
  · intro hcovered before p after heq hp
    obtain ⟨rfl, -, rfl⟩ := eq_of_refused front back heq hp hfront hback
    exact hundone.mp (hcovered.undone _ q _ rfl hq)
  · intro hworks
    refine ⟨fun fs hfs => ?_, fun before p after heq hp => ?_⟩
    · rw [hnone] at hfs
      cases hfs
    · obtain ⟨rfl, -, rfl⟩ := eq_of_refused front back heq hp hfront hback
      exact hundone.mpr (hworks _ q _ rfl hq)

end OneCall

theorem performs_getUploadLocation {options : IssuerOptions} {requested expiryTime : Option String}
    {out : Except Exit LocationResult} (hleases : leaseEnabled u = true)
    (h : (App.getUploadLocation options u caller requested expiryTime).run.Performs
      (Exec d faults) w t out w') :
    Covered u caller.partition t (out.toOption.map (·.fileSource)) w' ↔ UndoWorks t := by
  obtain ⟨t₁, t₂, bodyOut, w₁, haudited⟩ := auditedRun_of_performs h
  obtain rfl := haudited.trace
  have hback : ∀ p ∈ t₂, Unleased p.op := fun p hp => (haudited.audit p hp).looking.1
  -- Without an issue there is neither an address nor a call on the leases.
  have hnothing : ∀ exit, bodyOut = .error exit → (∀ p ∈ t₁, Unleased p.op) →
      (Covered u caller.partition (t₁ ++ t₂) (out.toOption.map (·.fileSource)) w' ↔
        UndoWorks (t₁ ++ t₂)) := by
    rintro exit rfl hfront
    have hall : ∀ p ∈ t₁ ++ t₂, Unleased p.op := fun p hp =>
      (List.mem_append.mp hp).elim (hfront p) (hback p)
    apply iff_of_true
    · rw [covered_iff_of_unleased hall, address_none haudited]
      simp
    · exact undoWorks_of_unleased hall
  obtain ⟨ta, authorized, w₂, tr, rfl, hauthorize, hrest⟩ := Program.performs_bind.mp haudited.body
  have hfirst : ∀ p ∈ ta, Looking p.op := (within_authorizeCaller.looked hauthorize).1
  cases authorized with
  | error exit =>
    obtain ⟨rfl, hexit, -⟩ := hrest
    exact hnothing exit hexit (by simpa using fun p hp => (hfirst p hp).1)
  | ok _ =>
    obtain ⟨ti, issued, w₃, tq, rfl, hissue, hrest'⟩ := Program.performs_bind.mp hrest
    have hsecond : ∀ p ∈ ti, Unleased p.op := (within_issueUploadLocation.performed hissue).1
    have hfront : ∀ p ∈ ta ++ ti, Unleased p.op := fun p hp =>
      (List.mem_append.mp hp).elim (fun hp => (hfirst p hp).1) (hsecond p)
    cases issued with
    | error exit =>
      obtain ⟨rfl, hexit, -⟩ := hrest'
      exact hnothing exit hexit (by simpa using hfront)
    | ok result =>
      obtain ⟨tl, leased, w₄, te, rfl, hacquire, hend⟩ := Program.performs_bind.mp hrest'
      obtain ⟨ref, location, hplaced, hid, -⟩ := placed_of_issue hissue
      obtain ⟨r, s₁, rest, rfl, hsame, hcase⟩ := performs_acquireUploadLease hleases hacquire
      rcases hcase with
        ⟨⟨lease, rfl⟩, rfl, rfl, rfl, hleased⟩ | ⟨⟨e, rfl⟩, ⟨exit, rfl⟩, undone, hundo⟩
      · obtain ⟨rfl, hbodyOut, rfl⟩ := hend
        have hheld : ∀ fs, out.toOption.map (·.fileSource) = some fs →
            Leased u caller.partition fs w' := by
          intro fs hfs
          cases out with
          | error exit => cases hfs
          | ok a =>
            obtain ⟨id, hreturned⟩ := haudited.returned a rfl
            rw [hbodyOut] at hreturned
            cases hreturned
            cases hfs
            exact hleased.audited haudited.leases
        simpa using covered_iff_of_granted rfl hfront hback hheld
      · obtain ⟨rfl, hexit, rfl⟩ := hend
        rw [hexit] at haudited
        have hplaced' : Placed d caller.partition (ta ++ ti) s₁ ref location :=
          { hplaced.looked hfirst with
            object := by rw [hsame.object]; exact hplaced.object
            located := by rw [hsame.locations]; exact hplaced.located }
        rw [hid] at hundo
        have hundoing := (within_removeIssuedUpload.performed hundo).1
        have haudit : ∀ q ∈ t₂, UndoCall q.op → ¬Lost q := by
          intro q hq hcall
          have hop := haudited.audit q hq
          revert hop hcall
          cases q.op <;> simp [Auditing, UndoCall]
        have hundone : Undone caller.partition (ta ++ ti) w' ↔
            ∀ q ∈ rest ++ t₂, UndoCall q.op → ¬Lost q := by
          rw [undone_iff hplaced', gone_congr haudited.data, gone_iff hplaced' hundo,
            List.forall_mem_append, and_iff_left haudit]
        have hafter : ∀ p ∈ rest ++ t₂, Unleased p.op := fun p hp =>
          (List.mem_append.mp hp).elim (hundoing p) (hback p)
        simpa using covered_iff_of_refused hfront hafter (address_none haudited) rfl hundone

/-- `GetStorageInstructions` leaves the leases as they are. -/
theorem performs_getStorageInstructions {options : IssuerOptions} {expiryTime : Option String}
    {out : Except Exit StorageInstructions}
    (h : (App.getStorageInstructions options u caller expiryTime).run.Performs
      (Exec d faults) w t out w') :
    Covered u caller.partition t (out.toOption.map (·.fileSource)) w' ↔
      ∀ fs, out.toOption.map (·.fileSource) = some fs → Leased u caller.partition fs w := by
  obtain ⟨t₁, t₂, bodyOut, w₁, haudited⟩ := auditedRun_of_performs h
  obtain rfl := haudited.trace
  have hbody : Within Unleased (do
      authorizeCaller caller roleDatasetEditors
      let location ← issueUploadLocation options caller.partition caller.userId none expiryTime
      return (some location.fileId,
        { providerKey := toUpper location.driver
          signedUrl := location.signedUrl
          fileSource := location.fileSource
          createdBy := caller.userId
          expiresAtEpochSeconds := location.expiresAtEpochSeconds : StorageInstructions })) :=
    Within.bind within_authorizeCaller.unleased fun _ =>
      Within.bind within_issueUploadLocation fun _ => within_pure _
  obtain ⟨hfront, hsame⟩ := hbody.performed haudited.body
  rw [covered_iff_of_unleased fun p hp => (List.mem_append.mp hp).elim (hfront p) fun hp =>
    (haudited.audit p hp).looking.1]
  have hleases : SameLeases w w' :=
    ⟨haudited.leases.1.trans hsame.1, haudited.leases.2.trans hsame.2⟩
  constructor
  · exact fun hheld fs hfs => (hheld fs hfs).audited ⟨hleases.1.symm, hleases.2.symm⟩
  · exact fun hheld fs hfs => (hheld fs hfs).audited hleases

/-- Only a caller with a partition gets an address. -/
theorem partition_ne_of_returned {α : Type} {role : String} {f : Unit → Domain.Action (Option String × α)}
    {t₁ t₂ : List (Performed ports World)} {bodyOut : Except Exit (Option String × α)} {w₁ : World}
    {a : α}
    (h : AuditedRun (authorizeCaller caller role >>= f) d faults w t (.ok a) w' t₁ t₂ bodyOut w₁) :
    caller.partition ≠ "" := by
  intro hempty
  obtain ⟨id, rfl⟩ := h.returned a rfl
  obtain ⟨_, _, _, _, -, hauthorize, -⟩ := Action.returns_bind.mp h.body
  rw [authorizeCaller, if_pos hempty] at hauthorize
  exact Action.not_returns_throw hauthorize

/-- Once its lease has run out untouched, the file source is claimed by a run of the collector
that can take all dead leases. -/
def Reclaimed (d : Deployment) (partition fs : String) (w : World) : Prop :=
  ∀ (round : Round) (limit : Nat), 0 < limit → round.Performed d partition limit →
    round.before.leases.lease partition fs = w.leases.lease partition fs →
    (∀ lease, w.leases.lease partition fs = some lease →
      lease.expiresAtEpochMillis ≤ round.before.nowMillis) →
    (deadKeys round.before partition).length ≤ limit →
    round.Claims (InMemoryLeaseRepository.key partition fs)

theorem Leased.reclaimed {partition fs : String} (hpartition : partition ≠ "")
    (h : Leased u partition fs w) : Reclaimed d partition fs w := by
  intro round limit hlimit hround hsame hdead hfew
  obtain ⟨lease, hlease, -, -⟩ := h
  rw [hround.claims_iff hpartition hlimit, List.take_of_length_le hfew, mem_deadKeys]
  have hkey : Text.startsWith (InMemoryLeaseRepository.key partition fs) (partition ++ "\x1f") = true := by
    simp [InMemoryLeaseRepository.key, Text.startsWith, String.toList_append]
  exact ⟨lease, hsame.trans hlease, hkey, hdead lease hlease⟩

variable {options : IssuerOptions} {request : AddressRequest} {address : Option String}

theorem partition_ne_of_address {fs : String}
    (h : request.Performed options u caller d faults w t (some fs) w') : caller.partition ≠ "" := by
  cases request with
  | getUploadLocation requested expiryTime =>
    obtain ⟨out, hperforms, hfs⟩ := h
    obtain ⟨t₁, t₂, bodyOut, w₁, haudited⟩ := auditedRun_of_performs hperforms
    cases out with
    | error exit => cases hfs
    | ok a => exact partition_ne_of_returned haudited
  | getStorageInstructions expiryTime =>
    obtain ⟨out, hperforms, hfs⟩ := h
    obtain ⟨t₁, t₂, bodyOut, w₁, haudited⟩ := auditedRun_of_performs hperforms
    cases out with
    | error exit => cases hfs
    | ok a => exact partition_ne_of_returned haudited

/-- Exactly the addresses of `GetUploadLocation` whose undo, if there is one, works are covered,
and those for which the instance has a lease already. What is covered is claimed in the end. -/
theorem upload_covered_iff (hleases : leaseEnabled u = true)
    (h : request.Performed options u caller d faults w t address w') :
    (Covered u caller.partition t address w' ↔ request.Meets u caller w t address) ∧
      (Covered u caller.partition t address w' →
        ∀ fs, address = some fs → Reclaimed d caller.partition fs w') := by
  constructor
  · cases request with
    | getUploadLocation requested expiryTime =>
      obtain ⟨out, hperforms, rfl⟩ := h
      exact performs_getUploadLocation hleases hperforms
    | getStorageInstructions expiryTime =>
      obtain ⟨out, hperforms, rfl⟩ := h
      exact performs_getStorageInstructions hperforms
  · rintro hcovered fs rfl
    exact (hcovered.held fs rfl).reclaimed (partition_ne_of_address h)

end Coverage

/-! ## Sample requests -/

/-- Carry a program out, with the calls it makes. -/
def carryLog (step : World → (op : Port) → Option (op.Reply × World)) {α : Type} :
    Program ports α → World → Option (List (Performed ports World) × α × World)
  | .ret a, w => some ([], a, w)
  | .call op next, w => (step w op).bind fun (r, w') =>
    (carryLog step (next r) w').map fun log => (⟨w, op, r, w'⟩ :: log.1, log.2)

theorem performs_of_carryLog {d : Deployment} {faults : Faults} {α : Type} {p : Program ports α}
    {step : World → (op : Port) → Option (op.Reply × World)}
    (hstep : ∀ w op r w', step w op = some (r, w') → Exec d faults w op r w') {w w' : World}
    {t : List (Performed ports World)} {a : α} (h : carryLog step p w = some (t, a, w')) :
    p.Performs (Exec d faults) w t a w' := by
  induction p generalizing w t with
  | ret b =>
    cases h
    exact ⟨rfl, rfl, rfl⟩
  | call op next ih =>
    obtain ⟨⟨r, w₁⟩, hcall, hrest⟩ := Option.bind_eq_some_iff.mp h
    obtain ⟨⟨log, b, w₂⟩, hlog, heq⟩ := Option.map_eq_some_iff.mp hrest
    cases heq
    exact ⟨r, w₁, log, hstep w op r w₁ hcall, rfl, ih r hlog⟩

def leasedPorts : UseCasePorts :=
  { samplePorts with leasesWired := true, leasesEnabled := true, instanceId := "i" }

/-- The calls of a sample request; the identifier drawn is all zeros. -/
def sampleLog {α : Type} (x : Domain.Action α) :
    Option (List (Performed ports World) × Except Exit α × World) :=
  carryLog (choose sampleDeployment .none (.done (String.ofList (List.replicate 32 '0')))) x.run
    stagedWorld

theorem performs_sampleLog {α : Type} {x : Domain.Action α} {t : List (Performed ports World)}
    {out : Except Exit α} {w' : World} (h : sampleLog x = some (t, out, w')) :
    x.run.Performs (Exec sampleDeployment .none) stagedWorld t out w' :=
  performs_of_carryLog (fun _ _ _ _ hstep => exec_of_choose sampleDeployment .none hstep) h

def sampleUpload : Domain.Action LocationResult :=
  App.getUploadLocation {} leasedPorts sampleCaller (some "x") none

def sampleInstructions : Domain.Action StorageInstructions :=
  App.getStorageInstructions {} leasedPorts sampleCaller none

/-- The file source of a sample request, and whether it leaves a lease and meets no refusal. -/
def sampleAddress {α : Type} (source : α → String) (x : Domain.Action α) :
    Option (String × Bool × Bool) :=
  (sampleLog x).bind fun log => log.2.1.toOption.map fun a =>
    (source a, (log.2.2.leases.lease "p" (source a)).isSome, log.1.any refusedLease)

theorem sampleLog_of_address {α : Type} {source : α → String} {x : Domain.Action α} {fs : String}
    {held refused : Bool} (h : sampleAddress source x = some (fs, held, refused)) :
    ∃ t a w', x.run.Performs (Exec sampleDeployment .none) stagedWorld t (.ok a) w' ∧
      source a = fs ∧ (w'.leases.lease "p" fs).isSome = held ∧ t.any refusedLease = refused := by
  obtain ⟨⟨t, out, w'⟩, hlog, hout⟩ := Option.bind_eq_some_iff.mp h
  obtain ⟨a, ha, heq⟩ := Option.map_eq_some_iff.mp hout
  cases out with
  | error e => cases ha
  | ok b =>
    cases ha
    cases heq
    exact ⟨t, _, w', performs_sampleLog hlog, rfl, rfl, rfl⟩

/-- An upload that gets its lease. -/
theorem sample_upload_covered : ∃ t fs w',
    AddressRequest.Performed {} leasedPorts sampleCaller sampleDeployment .none stagedWorld t
      (some fs) w' (.getUploadLocation (some "x") none) ∧
    Covered leasedPorts "p" t (some fs) w' ∧ Reclaimed sampleDeployment "p" fs w' := by
  have haddress : sampleAddress (·.fileSource) sampleUpload =
      some ("/u/1614784413120-2021-03-03-15-13-33-120/x", true, false) := by decide +kernel
  obtain ⟨t, a, w', hperforms, hfs, -, hrefused⟩ := sampleLog_of_address haddress
  have hperformed : AddressRequest.Performed {} leasedPorts sampleCaller sampleDeployment .none
      stagedWorld t (some a.fileSource) w' (.getUploadLocation (some "x") none) :=
    ⟨.ok a, hperforms, rfl⟩
  obtain ⟨hiff, hreclaimed⟩ := upload_covered_iff (by decide) hperformed
  have hworks : UndoWorks t := by
    rintro before p after rfl hp
    simp [hp] at hrefused
  have hcovered := hiff.mpr hworks
  exact ⟨t, a.fileSource, w', hperformed, hcovered, hreclaimed hcovered _ rfl⟩

/-- Storage instructions are given out without a lease, while leases are enabled. -/
theorem instructions_uncovered : leaseEnabled leasedPorts = true ∧ ∃ t fs w',
    AddressRequest.Performed {} leasedPorts sampleCaller sampleDeployment .none stagedWorld t
      (some fs) w' (.getStorageInstructions none) ∧
    w'.leases.lease "p" fs = none ∧ ¬Covered leasedPorts "p" t (some fs) w' := by
  have haddress : sampleAddress (·.fileSource) sampleInstructions =
      some ("/u/1614784413120-2021-03-03-15-13-33-120/00000000000000000000000000000000", false,
        false) := by decide +kernel
  obtain ⟨t, a, w', hperforms, hfs, hlease, -⟩ := sampleLog_of_address haddress
  rw [← hfs, Option.isSome_eq_false_iff, Option.isNone_iff_eq_none] at hlease
  refine ⟨by decide, t, a.fileSource, w', ⟨.ok a, hperforms, rfl⟩, hlease, fun hcovered => ?_⟩
  obtain ⟨lease, hheld, -⟩ := hcovered.held _ rfl
  rw [hlease] at hheld
  cases hheld

end FileService.Safety.UploadCoverage
