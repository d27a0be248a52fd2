import FileService.Domain.Effects
import FileService.Interaction.Execution
import FileService.Protocols.Replies

/-!
# Use cases on a service without failures

Before each call of a use case some time may pass; then the call is done. What
does not depend on the time and on the leases is stable: idle calls keep it.
-/
namespace FileService.Checksums
open FileService.Common FileService.Domain FileService.Interaction FileService.App
open FileService.Protocols

variable {d : Deployment} {α β : Type}

/-- Time passes, then the call is done. -/
def served (d : Deployment) : Effects ports World := fun w op r w' =>
  ∃ w₁, Relation.ReflTransGen (World.Tick .none) w w₁ ∧ World.Exec d .none w₁ op r w'

theorem sameData_trans {w w' w'' : World} (h : World.SameData w w') (h' : World.SameData w' w'') :
    World.SameData w w'' :=
  ⟨h'.metadata.trans h.metadata, h'.remote.trans h.remote, h'.locations.trans h.locations,
    fun store ref => (h'.object store ref).trans (h.object store ref)⟩

theorem sameData_of_ticks {w w' : World} (h : Relation.ReflTransGen (World.Tick .none) w w') :
    World.SameData w w' := by
  induction h with
  | refl => exact World.SameData.refl w
  | tail _ htick ih => exact sameData_trans ih htick.sameData

/-- What is the same in two states with the same records, locations and objects. -/
def Stable (P : World → Prop) : Prop := ∀ w w', World.SameData w w' → P w → P w'

theorem Stable.and {P P' : World → Prop} (h : Stable P) (h' : Stable P') :
    Stable fun w => P w ∧ P' w :=
  fun w w' hsame hw => ⟨h w w' hsame hw.1, h' w w' hsame hw.2⟩

theorem stable_true : Stable fun _ => True := fun _ _ _ _ => trivial

section Rules
variable {P : World → Prop} {Q : α → World → Prop} {Q' : β → World → Prop}
variable {E : Exit → World → Prop}

theorem ensures_ask {op : Port} {Q : op.Reply → World → Prop} (hP : Stable P)
    (h : ∀ w r w', P w → World.Exec d .none w op r w' → Q r w') :
    Action.Ensures (served d) P (Action.ask op) Q E :=
  Action.ensures_call fun w r w' hw ⟨w₁, hticks, hexec⟩ =>
    h w₁ r w' (hP w w₁ (sameData_of_ticks hticks) hw) hexec

/-- A quiet call keeps what is stable; its reply is the one of a state in which it held. -/
theorem ensures_quiet {op : Port} {F : op.Reply → World → Prop} (hP : Stable P)
    (hF : ∀ r, Stable (F r)) (hop : op.Quiet)
    (h : ∀ w r w', P w → World.Exec d .none w op r w' → F r w) :
    Action.Ensures (served d) P (Action.ask op) (fun r w => F r w ∧ P w) E :=
  ensures_ask hP fun w r w' hw hexec =>
    ⟨hF r w w' (hexec.quiet hop) (h w r w' hw hexec), hP w w' (hexec.quiet hop) hw⟩

theorem ensures_tryResult {r : Result α} (hok : ∀ a w, r = .ok a → P w → Q a w)
    (herr : ∀ e w, r = .error e → P w → E (.error e) w) :
    Action.Ensures (served d) P (Action.tryResult r) Q E := by
  cases r with
  | ok a => exact Action.ensures_pure fun w hw => hok a w rfl hw
  | error e => exact Action.ensures_throw fun w hw => herr e w rfl hw

/-- The value of a result is used: what is known of it holds in the state it is used in. -/
theorem ensures_try {x : Action (Result β)} {f : β → Action α} {F : β → World → Prop}
    (hx : Action.Ensures (served d) P x (fun r w => (∀ b, r = .ok b → F b w) ∧ P w) E)
    (hf : ∀ b, Action.Ensures (served d) (fun w => F b w ∧ P w) (f b) Q E)
    (hE : ∀ e w, P w → E (.error e) w) :
    Action.Ensures (served d) P (x >>= fun r => Action.tryResult r >>= f) Q E := by
  refine hx.bind fun r => ?_
  cases r with
  | error e => exact Action.ensures_throw fun w hw => hE e w hw.2
  | ok b => exact (hf b).mono (fun w hw => ⟨hw.1 b rfl, hw.2⟩) (fun _ _ hw => hw) fun _ _ hw => hw

/-- The caller of `attempt` goes on after an error, in the state the error left. -/
theorem ensures_attempt {x : Action α} {Q : Result α → World → Prop}
    (hx : Action.Ensures (served d) P x (fun a => Q (.ok a))
      fun exit w => match exit with | .error e => Q (.error e) w | exit => E exit w) :
    Action.Ensures (served d) P (Action.attempt x) Q E := by
  refine Program.Ensures.bind hx fun out => ?_
  cases out with
  | ok a => exact Program.ensures_pure fun w hw => hw
  | error exit => cases exit <;> exact Program.ensures_pure fun w hw => hw

end Rules

/-- The action keeps a property of the state, whichever way it leaves. -/
def Keeps (d : Deployment) (P : World → Prop) (x : Action α) : Prop :=
  Action.Ensures (served d) P x (fun _ => P) fun _ => P

section Keeps
variable {P : World → Prop} {x : Action α} {f : α → Action β}

theorem keeps_pure {a : α} : Keeps d P (pure a : Action α) := Action.ensures_pure fun _ hw => hw

theorem keeps_throw {exit : Exit} : Keeps d P (throw exit : Action α) :=
  Action.ensures_throw fun _ hw => hw

theorem Keeps.bind (hx : Keeps d P x) (hf : ∀ a, Keeps d P (f a)) : Keeps d P (x >>= f) :=
  Action.Ensures.bind hx hf

theorem keeps_ask {op : Port} (hP : Stable P)
    (h : ∀ w r w', P w → World.Exec d .none w op r w' → P w') : Keeps d P (Action.ask op) :=
  ensures_ask hP h

theorem keeps_quiet {op : Port} (hP : Stable P) (hop : op.Quiet) : Keeps d P (Action.ask op) :=
  keeps_ask hP fun w _ w' hw hexec => hP w w' (hexec.quiet hop) hw

theorem keeps_tryResult {r : Result α} : Keeps d P (Action.tryResult r) :=
  ensures_tryResult (fun _ _ _ hw => hw) fun _ _ _ hw => hw

theorem Keeps.attempt (hx : Keeps d P x) : Keeps d P (Action.attempt x) :=
  ensures_attempt (hx.mono (fun _ hw => hw) (fun _ _ hw => hw) fun exit w hw => by
    cases exit <;> exact hw)

theorem ensures_idle {X : Exit → Prop} (hP : Stable P) (hx : IdleAction X x) :
    Action.Ensures (served d) P x (fun _ => P) fun exit w => X exit ∧ P w := by
  have hstep : ∀ w op r w', Idle op → P w → served d w op r w' → P w' := by
    rintro w op r w' hop hw ⟨w₁, hticks, hexec⟩
    exact hP w w' (sameData_trans (sameData_of_ticks hticks) (hexec.quiet hop.1)) hw
  refine (Program.ensures_of_uses hx hstep).mono (fun _ hw => hw) fun out w hend => ?_
  cases out with
  | ok a => exact hend.2
  | error exit => exact ⟨hend.1 exit rfl, hend.2⟩

theorem keeps_idle {X : Exit → Prop} (hP : Stable P) (hx : IdleAction X x) : Keeps d P x :=
  (ensures_idle hP hx).mono (fun _ hw => hw) (fun _ _ hw => hw) fun _ _ hw => hw.2

end Keeps

section Wrappers
variable {P : World → Prop} {x : Action α} {Q : α → World → Prop} {E : Exit → World → Prop}

/-- The destructor runs after the body and changes nothing that is stable. -/
theorem ensures_destructing {destructor : Action Unit} (hx : Action.Ensures (served d) P x Q E)
    (hQ : ∀ a, Stable (Q a)) (hE : ∀ exit, Stable (E exit))
    (hdestructor : ∀ R, Stable R → Keeps d R destructor) :
    Action.Ensures (served d) P (x.destructing destructor) Q E := by
  have hafter : ∀ {R : World → Prop}, Stable R →
      Program.Ensures (served d) R destructor.run fun _ => R := fun hR =>
    Program.Ensures.mono (hdestructor _ hR) (fun _ hw => hw) fun out w hw => by
      cases out <;> exact hw
  exact Domain.Action.Ensures.destructing hx (fun a => hafter (hQ a)) fun exit => hafter (hE exit)

/-- The audit around a use case changes nothing that is stable. -/
theorem ensures_audited {u : UseCasePorts} {caller : CallerContext} {operation objectId : String}
    {body : Action (Option String × α)}
    (hbody : Action.Ensures (served d) P body (fun a => Q a.2) E) (hQ : ∀ a, Stable (Q a))
    (hE : ∀ exit, Stable (E exit)) (hexit : ∀ a exit w, Q a w → E exit w) :
    Action.Ensures (served d) P (audited u caller operation objectId body) Q E := by
  have hfailure : ∀ {R : World → Prop} {E' : Exit → World → Prop}, Stable R →
      Action.Ensures (served d) R (recordFailure u (operation ++ "Failure") caller objectId)
        (fun _ => R) E' := fun hR =>
    (ensures_idle hR (idle_recordFailure (X := fun _ => False) ..)).mono (fun _ hw => hw)
      (fun _ _ hw => hw) fun _ _ hw => hw.1.elim
  refine Program.Ensures.bind hbody fun out => ?_
  cases out with
  | ok a =>
    obtain ⟨success, a⟩ := a
    cases success with
    | none =>
      exact (hfailure (hQ a)).bind fun _ => Action.ensures_pure fun _ hw => hw
    | some id =>
      have haudit : Keeps d (Q a) (recordAudit u (operation ++ "Success") caller id true) :=
        keeps_idle (hQ a) (idle_recordAudit (X := fun _ => True) (fun _ => trivial) ..)
      exact (haudit.mono (fun _ hw => hw) (fun _ _ hw => hw)
        fun exit w hw => hexit a exit w hw).bind fun _ => Action.ensures_pure fun _ hw => hw
  | error exit =>
    cases exit with
    | diverged => exact Program.ensures_pure fun _ hw => hw
    | error e =>
      exact (hfailure (hE (.error e))).bind fun _ => Action.ensures_throw fun _ hw => hw
    | exception what =>
      exact (hfailure (hE (.exception what))).bind fun _ => Action.ensures_throw fun _ hw => hw

end Wrappers

end FileService.Checksums
