import FileService.S3.Answers

/-!
# The runs of the blob store

Before its call an operation checks its arguments, asks for the time and signs. What
happens after the call depends on the answer only.
-/
namespace FileService.S3
open FileService.Common FileService.Common.Crypto FileService.Domain FileService.Interaction

/-! ## Runs -/

def exchange? : Occurrence calling → Option (HttpCall × Exchange)
  | ⟨.perform call, x⟩ => some (call, x)
  | _ => none

/-- The calls of a run on the network, with what came back. -/
def exchanges (t : Trace calling) : List (HttpCall × Exchange) := t.filterMap exchange?

def closing? : Occurrence calling → Option (Result Unit)
  | ⟨.closeSink, r⟩ => some r
  | _ => none

/-- What came of the end of the sink. -/
def closings (t : Trace calling) : List (Result Unit) := t.filterMap closing?

/-- The operation makes these calls and ends so. -/
def Runs {α : Type} (p : Operation α) (t : Trace calling) (r : Result α) : Prop :=
  (ExceptT.run p).Emits t r

section Runs
variable {α β : Type} {t : Trace calling} {r : Result β} {C : HttpCall → Prop}
variable {after : Int × Transfer → Operation β}

/-- The run goes on with a value, or it ends with an error. -/
def Proceeds (q : Result α) (f : α → Operation β) (t : Trace calling) (r : Result β) : Prop :=
  match q with
  | .ok a => Runs (f a) t r
  | .error e => t = [] ∧ r = .error e

/-- The operation fails before it calls the service, or it makes a call that satisfies `C` and
goes on with its answer. -/
def Leads (C : HttpCall → Prop) (after : Int × Transfer → Operation β) (p : Operation β) : Prop :=
  ∀ t r, Runs p t r → (exchanges t = [] ∧ ∃ e, r = .error e) ∨
    ∃ call x rest, C call ∧ exchanges t = (call, x) :: exchanges rest ∧ closings t = closings rest ∧
      Proceeds (call.outcome x) (fun status => after (status, call.transfer x)) rest r

theorem runs_tryResult_bind {q : Result α} {f : α → Operation β} :
    Runs (tryResult q >>= f) t r ↔ Proceeds q f t r := by
  cases q <;> rfl

theorem runs_ask_bind {call : S3Call} {f : call.Reply → Operation β} :
    Runs (ask call >>= f) t r ↔ ∃ reply rest, t = ⟨call, reply⟩ :: rest ∧ Runs (f reply) rest r :=
  Iff.rfl

theorem leads_tryResult {q : Result α} {f : α → Operation β} (h : ∀ a, Leads C after (f a)) :
    Leads C after (tryResult q >>= f) := by
  intro t r hrun
  rw [runs_tryResult_bind] at hrun
  cases q with
  | ok a => exact h a t r hrun
  | error e =>
    obtain ⟨rfl, rfl⟩ := hrun
    exact .inl ⟨rfl, e, rfl⟩

theorem leads_now {f : Int → Operation β} (h : ∀ now, Leads C after (f now)) :
    Leads C after (ask .nowEpochSeconds >>= f) := by
  intro t r hrun
  obtain ⟨now, rest, rfl, hrest⟩ := runs_ask_bind.mp hrun
  exact h now rest r hrest

theorem leads_perform {call : HttpCall} (h : C call) :
    Leads C after (curlPerform call >>= after) := by
  intro t r hrun
  rw [curlPerform, bind_assoc] at hrun
  obtain ⟨x, rest, rfl, hrest⟩ := runs_ask_bind.mp hrun
  rw [bind_assoc, runs_tryResult_bind] at hrest
  simp only [pure_bind] at hrest
  exact .inr ⟨call, x, rest, h, rfl, rfl, hrest⟩

/-- A request is signed for the time that is drawn, and then it is made. -/
theorem leads_signed {γ : Type} {q : Int → Result γ} {call : Int → γ → HttpCall}
    (h : ∀ now headers, C (call now headers)) :
    Leads C after (ask .nowEpochSeconds >>= fun now =>
      tryResult (q now) >>= fun headers => curlPerform (call now headers) >>= after) := by
  apply leads_now
  intro now
  apply leads_tryResult
  intro headers
  exact leads_perform (h now headers)

/-- A run that ends well has made the call, and the call arrived. -/
theorem Leads.succeeds {p : Operation β} (h : Leads C after p) {a : β} (hrun : Runs p t (.ok a)) :
    ∃ call x rest, C call ∧ exchanges t = (call, x) :: exchanges rest ∧ closings t = closings rest ∧
      call.Arrives x ∧ Runs (after ((x.final.status : Int), call.transfer x)) rest (.ok a) := by
  rcases h t _ hrun with ⟨-, e, he⟩ | ⟨call, x, rest, hC, hcalls, hclosings, hrest⟩
  · cases he
  · cases houtcome : call.outcome x with
    | error e =>
      rw [houtcome] at hrest
      cases hrest.2
    | ok status =>
      obtain ⟨harrives, rfl⟩ := outcome_eq_ok.mp houtcome
      rw [houtcome] at hrest
      exact ⟨call, x, rest, hC, hcalls, hclosings, harrives, hrest⟩

/-- What a run ends with whose first call arrived. -/
theorem Leads.arrives {p : Operation β} (h : Leads C after p) (hrun : Runs p t r) {call : HttpCall}
    {x : Exchange} {others : List (HttpCall × Exchange)} (hcalls : exchanges t = (call, x) :: others)
    (harrives : call.Arrives x) : ∃ rest, C call ∧ exchanges rest = others ∧
      closings t = closings rest ∧
      Runs (after ((x.final.status : Int), call.transfer x)) rest r := by
  rcases h t r hrun with ⟨hnone, -⟩ | ⟨call', x', rest, hC, hcalls', hclosings, hrest⟩
  · rw [hcalls] at hnone
    cases hnone
  · rw [hcalls, List.cons.injEq, Prod.mk.injEq] at hcalls'
    obtain ⟨⟨rfl, rfl⟩, rfl⟩ := hcalls'
    rw [outcome_of_arrives harrives] at hrest
    exact ⟨rest, hC, rfl, hclosings, hrest⟩

theorem runs_tryResult {q : Result β} : Runs (tryResult q) t r ↔ t = [] ∧ r = q := by
  cases q <;> rfl

theorem runs_pure {b : β} : Runs (pure b : Operation β) t r ↔ t = [] ∧ r = .ok b := Iff.rfl

end Runs

/-! ## Operations -/

namespace S3BlobStore
variable (store : S3BlobStore) {ref source target : ObjectRef} {range : ByteRange}
variable {sourceSize : Option Int} {options : PutOptions}

theorem leads_put : Leads (fun _ => True)
    (fun p => tryResult (store.putResult options p.1 p.2)) (store.put ref sourceSize options) := by
  unfold put sign
  apply leads_tryResult
  intro _
  apply leads_now
  intro now
  apply leads_tryResult
  intro checked
  apply leads_tryResult
  intro headers
  exact leads_perform trivial

/-- How a get goes on that was answered. -/
def afterGet (p : Int × Transfer) : Operation Unit := do
  if 400 ≤ p.1 then throw (mapS3Error p.1 p.2.download.errorBody "get")
  tryResult (← ask .closeSink)

theorem leads_get : Leads (fun call => call.download = true) afterGet (store.get ref range) := by
  unfold get sign
  apply leads_tryResult
  intro _
  exact leads_signed fun _ _ => rfl

theorem leads_stat : Leads (fun _ => True)
    (fun p => tryResult (store.statResult p.1 p.2.download.headers)) (store.stat ref) := by
  unfold stat sign
  apply leads_tryResult
  intro _
  exact leads_signed fun _ _ => trivial

theorem leads_remove : Leads (fun _ => True)
    (fun p => tryResult (removeResult p.1 p.2.download.errorBody)) (store.remove ref) := by
  unfold remove sign
  apply leads_tryResult
  intro _
  exact leads_signed fun _ _ => trivial

/-- How a copy goes on that was answered. -/
def afterCopy (target : ObjectRef) (p : Int × Transfer) : Operation ObjectStat := do
  if 400 ≤ p.1 then throw (mapS3Error p.1 p.2.download.errorBody "copy")
  let stat ← store.stat target
  pure (copied p.2.download.errorBody stat)

theorem leads_copy : Leads (fun call => call.download = false ∧ call.errorBody = true)
    (store.afterCopy target) (store.copy source target) := by
  unfold copy sign
  apply leads_tryResult
  intro _
  apply leads_tryResult
  intro _
  exact leads_signed fun _ _ => ⟨rfl, rfl⟩

theorem leads_copied {body : Bytes} : Leads (fun _ => True)
    (fun p => tryResult (store.statResult p.1 p.2.download.headers) >>= fun stat =>
      pure (copied body stat))
    (store.stat ref >>= fun stat => pure (copied body stat)) := by
  unfold stat sign
  simp only [bind_assoc]
  apply leads_tryResult
  intro _
  exact leads_signed fun _ _ => trivial

end S3BlobStore

end FileService.S3
