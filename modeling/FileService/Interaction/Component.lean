import FileService.Interaction.Reliance

/-!
# Components with several callers

Callers make calls of a component, each call running the program of its method.
The operations of all running calls interleave over one state. A call is proved
by an outline: an assertion before each of its operations that no operation of
another caller breaks.
-/
namespace FileService.Interaction

/-- The effects of the operations of each caller, the steps the environment takes, the
programs of the methods, and when a caller makes which call. -/
structure Component (ι : Type) (I : Interface) (S Method : Type) (Answer : Method → Type) where
  exec : ι → S → (op : I.Op) → I.Reply op → S → Prop
  env : S → S → Prop
  body : (m : Method) → Program I (Answer m)
  allowed : ι → Method → S → Prop

namespace Component
variable {ι : Type} {I : Interface} {S Method : Type} {Answer : Method → Type}

/-- A call in progress, with the states it has been seen in, newest first. -/
structure Running (I : Interface) (S Method : Type) (Answer : Method → Type) where
  method : Method
  rest : Program I (Answer method)
  seen : List S

structure Config (ι : Type) (I : Interface) (S Method : Type) (Answer : Method → Type) where
  running : ι → Option (Running I S Method Answer)
  state : S

variable (C : Component ι I S Method Answer)

/-- The component where the operations have a further condition. -/
def restrict (K : ι → S → (op : I.Op) → I.Reply op → S → Prop) : Component ι I S Method Answer :=
  { C with exec := fun i s op r s' => C.exec i s op r s' ∧ K i s op r s' }

/-! ## Outlines -/

/-- What is said of the states a call has been seen in and of the state now. -/
abbrev Assertion (S : Type) := List S → S → Prop

section Outlines
variable (Inv : S → Prop)

/-- Neither the other callers nor the environment break the assertion. -/
structure Stable (i : ι) (P : Assertion S) : Prop where
  others : ∀ {j s op r s'} seen, j ≠ i → Inv s → C.exec j s op r s' → P seen s → P seen s'
  env : ∀ {s s'} seen, Inv s → C.env s s' → P seen s → P seen s'

/-- From `P` on, the program keeps the invariant, and what it returns satisfies `Q`. -/
def Outlines (i : ι) {α : Type} : Program I α → Assertion S → (α → Assertion S) → Prop
  | .ret a, P, Q => ∀ seen s, Inv s → P seen s → Q a seen s
  | .call op next, P, Q => ∃ R : I.Reply op → Assertion S, (∀ r, C.Stable Inv i (R r)) ∧
      (∀ seen s r s', Inv s → P seen s → C.exec i s op r s' → Inv s' ∧ R r (s' :: seen) s') ∧
      ∀ r, Outlines i (next r) (R r) Q

variable {C Inv} {i : ι} {α β : Type} {p : Program I α} {P P' : Assertion S}
variable {Q : α → Assertion S}

theorem outlines_pure {a : α} (h : ∀ seen s, Inv s → P seen s → Q a seen s) :
    C.Outlines Inv i (pure a) P Q := h

theorem Outlines.weaken (h : C.Outlines Inv i p P Q)
    (hP : ∀ seen s, Inv s → P' seen s → P seen s) : C.Outlines Inv i p P' Q := by
  cases p with
  | ret a =>
    intro seen s hinv hP'
    exact h seen s hinv (hP seen s hinv hP')
  | call op next =>
    obtain ⟨R, hstable, hstep, hnext⟩ := h
    refine ⟨R, hstable, ?_, hnext⟩
    intro seen s r s' hinv hP' hexec
    exact hstep seen s r s' hinv (hP seen s hinv hP') hexec

theorem Outlines.bind {f : α → Program I β} {Q' : β → Assertion S}
    (hp : C.Outlines Inv i p P Q) (hf : ∀ a, C.Outlines Inv i (f a) (Q a) Q') :
    C.Outlines Inv i (p >>= f) P Q' := by
  induction p generalizing P with
  | ret a => exact (hf a).weaken hp
  | call op next ih =>
    obtain ⟨R, hstable, hstep, hnext⟩ := hp
    exact ⟨R, hstable, hstep, fun r => ih r (hnext r)⟩

theorem Outlines.strengthen {Q' : α → Assertion S} (h : C.Outlines Inv i p P Q)
    (hQ : ∀ a seen s, Inv s → Q a seen s → Q' a seen s) : C.Outlines Inv i p P Q' := by
  induction p generalizing P with
  | ret a =>
    intro seen s hinv hP
    exact hQ a seen s hinv (h seen s hinv hP)
  | call op next ih =>
    obtain ⟨R, hstable, hstep, hnext⟩ := h
    exact ⟨R, hstable, hstep, fun r => ih r (hnext r)⟩

/-- Nothing is to be shown where no state is. -/
theorem outlines_false : C.Outlines Inv i p (fun _ _ => False) Q := by
  induction p with
  | ret a => exact fun _ _ _ h => h.elim
  | call op next ih =>
    refine ⟨fun _ _ _ => False, fun _ => ?_, fun _ _ _ _ _ h => h.elim, fun r => ih r⟩
    exact ⟨fun _ _ _ _ h => h, fun _ _ _ h => h⟩

/-- A fact that says nothing of the state is known from then on. -/
theorem outlines_fact {φ : Prop} (h : φ → C.Outlines Inv i p P Q) :
    C.Outlines Inv i p (fun seen s => φ ∧ P seen s) Q := by
  by_cases hφ : φ
  · exact (h hφ).weaken fun _ _ _ hP => hP.2
  · exact outlines_false.weaken fun _ _ _ hP => hφ hP.1

/-- The rule of one operation. -/
theorem outlines_call {op : I.Op} {next : I.Reply op → Program I α} (R : I.Reply op → Assertion S)
    (hstable : ∀ r, C.Stable Inv i (R r))
    (hstep : ∀ seen s r s', Inv s → P seen s → C.exec i s op r s' → Inv s' ∧ R r (s' :: seen) s')
    (hnext : ∀ r, C.Outlines Inv i (next r) (R r) Q) :
    C.Outlines Inv i (Program.perform op >>= next) P Q :=
  ⟨R, hstable, hstep, hnext⟩

/-- The rule of operations that keep one assertion and are answered as the program relies on. -/
theorem outlines_relies {A : Assumption I} {K : I.Op → Prop} {Q : α → Prop}
    (hp : p.Relies A K Q) (hstable : C.Stable Inv i P)
    (hkeeps : ∀ op seen s r s', K op → Inv s → P seen s → C.exec i s op r s' →
      Inv s' ∧ A op r ∧ P (s' :: seen) s') :
    C.Outlines Inv i p P fun a seen s => Q a ∧ P seen s := by
  induction p with
  | ret a => exact fun seen s _ hP => ⟨hp, hP⟩
  | call op next ih =>
    refine ⟨fun r seen s => A op r ∧ P seen s, fun r => ?_, ?_, fun r => ?_⟩
    · constructor
      · exact fun seen hj hinv hexec hP => ⟨hP.1, hstable.others seen hj hinv hexec hP.2⟩
      · exact fun seen hinv henv hP => ⟨hP.1, hstable.env seen hinv henv hP.2⟩
    · exact fun seen s r s' hinv hP hexec => hkeeps op seen s r s' hp.1 hinv hP hexec
    · exact outlines_fact fun hr => ih r (hp.2 r hr)

end Outlines

/-! ## Every interleaving -/

section Steps
variable [DecidableEq ι]

/-- One step: a call begins, makes its next operation or returns, or the environment moves. -/
inductive Step : Config ι I S Method Answer → Config ι I S Method Answer → Prop
  | begin {c : Config ι I S Method Answer} {i : ι} {m : Method} :
      c.running i = none → C.allowed i m c.state →
      Step c { c with running := Function.update c.running i (some ⟨m, C.body m, [c.state]⟩) }
  | call {c : Config ι I S Method Answer} {i : ι} {m : Method} {op : I.Op}
      {next : I.Reply op → Program I (Answer m)} {seen : List S} {r : I.Reply op} {s' : S} :
      c.running i = some ⟨m, .call op next, seen⟩ → C.exec i c.state op r s' →
      Step c ⟨Function.update c.running i (some ⟨m, next r, s' :: seen⟩), s'⟩
  | done {c : Config ι I S Method Answer} {i : ι} {m : Method} {a : Answer m} {seen : List S} :
      c.running i = some ⟨m, .ret a, seen⟩ →
      Step c { c with running := Function.update c.running i none }
  | env {c : Config ι I S Method Answer} {s' : S} :
      C.env c.state s' → Step c { c with state := s' }

/-- Some interleaving leads from the state, without calls, to the configuration. -/
def Reaches (s₀ : S) (c : Config ι I S Method Answer) : Prop :=
  Relation.ReflTransGen C.Step ⟨fun _ => none, s₀⟩ c

variable {C} {s₀ : S} {c : Config ι I S Method Answer}

/-- Where more is possible, what was reached is still reached. -/
theorem Reaches.mono {exec : ι → S → (op : I.Op) → I.Reply op → S → Prop}
    (h : C.Reaches s₀ c) (hexec : ∀ i s op r s', C.exec i s op r s' → exec i s op r s') :
    ({ C with exec } : Component ι I S Method Answer).Reaches s₀ c := by
  refine Relation.ReflTransGen.mono (fun c c' hstep => ?_) _ _ h
  cases hstep with
  | begin hnone hallowed => exact .begin hnone hallowed
  | call hcall hstep => exact .call hcall (hexec _ _ _ _ _ hstep)
  | done hcall => exact .done hcall
  | env henv => exact .env henv

/-- A caller goes on while the others stand still. -/
theorem steps_of_performs {i : ι} {m : Method} {p : Program I (Answer m)} {seen : List S} {s s' : S}
    {running : ι → Option (Running I S Method Answer)} {t : List (Performed I S)} {a : Answer m}
    (h : Relation.ReflTransGen C.Step c ⟨Function.update running i (some ⟨m, p, seen⟩), s⟩)
    (hp : p.Performs (C.exec i) s t a s') : ∃ seen', Relation.ReflTransGen C.Step c
      ⟨Function.update running i (some ⟨m, .ret a, seen'⟩), s'⟩ := by
  induction p generalizing s t seen with
  | ret b =>
    obtain ⟨-, rfl, rfl⟩ := hp
    exact ⟨seen, h⟩
  | call op next ih =>
    obtain ⟨r, s₁, rest, hexec, -, hrest⟩ := hp
    have hnext := h.tail (Step.call (Function.update_self ..) hexec)
    rw [Function.update_idem] at hnext
    exact ih r hnext hrest

/-- A whole call while the others stand still, up to its return and after it. -/
theorem Reaches.runs {i : ι} {m : Method} {s' : S} {t : List (Performed I S)} {a : Answer m}
    (h : C.Reaches s₀ c) (hidle : c.running i = none) (hallowed : C.allowed i m c.state)
    (hp : (C.body m).Performs (C.exec i) c.state t a s') :
    (∃ seen, C.Reaches s₀ ⟨Function.update c.running i (some ⟨m, .ret a, seen⟩), s'⟩) ∧
      C.Reaches s₀ ⟨c.running, s'⟩ := by
  obtain ⟨seen, hreturning⟩ := steps_of_performs (h.tail (Step.begin hidle hallowed)) hp
  have hsame : Function.update (Function.update c.running i (some ⟨m, .ret a, seen⟩)) i none =
      c.running := by
    rw [Function.update_idem, Function.update_eq_self_iff]
    exact hidle.symm
  have hdone := hreturning.tail (Step.done (Function.update_self ..))
  exact ⟨⟨seen, hreturning⟩, hsame ▸ hdone⟩

/-- What no step takes away holds in every state that a call which begins later is seen in. -/
theorem holds_in_seen {K : S → Prop} {c' : Config ι I S Method Answer} {i : ι}
    (hexec : ∀ j s op r s', C.exec j s op r s' → K s → K s') (henv : ∀ s s', C.env s s' → K s → K s')
    (hK : K c.state) (hidle : c.running i = none) (hsteps : Relation.ReflTransGen C.Step c c') :
    K c'.state ∧ ∀ call, c'.running i = some call → ∀ s ∈ call.seen, K s := by
  induction hsteps with
  | refl => exact ⟨hK, by simp [hidle]⟩
  | tail _ hstep ih =>
    obtain ⟨hnow, hseen⟩ := ih
    cases hstep with
    | @begin j m hnone hallowed =>
      refine ⟨hnow, fun call hcall => ?_⟩
      dsimp only at hcall
      by_cases hij : i = j
      · subst hij
        rw [Function.update_self] at hcall
        obtain rfl := Option.some.inj hcall
        simpa using hnow
      · rw [Function.update_of_ne hij] at hcall
        exact hseen call hcall
    | @call j m op next seen r s' hrunning hexecuted =>
      have hnext := hexec j _ op r s' hexecuted hnow
      refine ⟨hnext, fun call hcall => ?_⟩
      dsimp only at hcall
      by_cases hij : i = j
      · subst hij
        rw [Function.update_self] at hcall
        obtain rfl := Option.some.inj hcall
        simpa [hnext] using hseen _ hrunning
      · rw [Function.update_of_ne hij] at hcall
        exact hseen call hcall
    | @done j m a seen hrunning =>
      refine ⟨hnow, fun call hcall => ?_⟩
      dsimp only at hcall
      by_cases hij : i = j
      · subst hij
        rw [Function.update_self] at hcall
        cases hcall
      · rw [Function.update_of_ne hij] at hcall
        exact hseen call hcall
    | env henvironment => exact ⟨henv _ _ henvironment hnow, hseen⟩

/-- What every method keeps to in its calls may be taken as a condition on the operations. -/
theorem Reaches.guaranteed {G : ι → I.Op → Prop}
    (hbody : ∀ i m s, C.allowed i m s → (C.body m).Uses (G i) fun _ => True)
    (h : C.Reaches s₀ c) : (C.restrict fun i _ op _ _ => G i op).Reaches s₀ c := by
  suffices hboth : (C.restrict fun i _ op _ _ => G i op).Reaches s₀ c ∧
      ∀ i call, c.running i = some call → call.rest.Uses (G i) fun _ => True from hboth.1
  induction h with
  | refl => exact ⟨.refl, by simp⟩
  | tail _ hstep ih =>
    obtain ⟨hreaches, huses⟩ := ih
    cases hstep with
    | @begin i m hnone hallowed =>
      refine ⟨hreaches.tail (.begin hnone hallowed), fun j call hcall => ?_⟩
      dsimp only at hcall
      by_cases hj : j = i
      · subst hj
        rw [Function.update_self] at hcall
        obtain rfl := Option.some.inj hcall
        exact hbody j m _ hallowed
      · rw [Function.update_of_ne hj] at hcall
        exact huses j call hcall
    | @call i m op next seen r s' hrunning hexec =>
      have hnow := huses i _ hrunning
      refine ⟨hreaches.tail (.call hrunning ⟨hexec, hnow.1⟩), fun j call hcall => ?_⟩
      dsimp only at hcall
      by_cases hj : j = i
      · subst hj
        rw [Function.update_self] at hcall
        obtain rfl := Option.some.inj hcall
        exact hnow.2 r
      · rw [Function.update_of_ne hj] at hcall
        exact huses j call hcall
    | @done i m a seen hrunning =>
      refine ⟨hreaches.tail (.done hrunning), fun j call hcall => ?_⟩
      dsimp only at hcall
      by_cases hj : j = i
      · subst hj
        rw [Function.update_self] at hcall
        cases hcall
      · rw [Function.update_of_ne hj] at hcall
        exact huses j call hcall
    | env henv => exact ⟨hreaches.tail (.env henv), huses⟩

end Steps

/-- Every method has an outline; between its calls a caller is idle. -/
structure Outlined (Inv : S → Prop) (Idle : ι → S → Prop)
    (Q : (m : Method) → ι → Answer m → Assertion S) : Prop where
  idle : ∀ i, C.Stable Inv i fun _ => Idle i
  env : ∀ {s s'}, Inv s → C.env s s' → Inv s'
  body : ∀ i m, ∃ P, C.Stable Inv i P ∧
    (∀ s, Inv s → Idle i s → C.allowed i m s → P [s] s) ∧
      C.Outlines Inv i (C.body m) P fun a seen s => Q m i a seen s ∧ Idle i s

variable {C} {Inv : S → Prop} {Idle : ι → S → Prop} {Q : (m : Method) → ι → Answer m → Assertion S}
variable {s₀ : S} {c : Config ι I S Method Answer}

/-- The caller is idle, or its call is somewhere in its outline. -/
def Proceeds (C : Component ι I S Method Answer) (Inv : S → Prop) (Idle : ι → S → Prop)
    (Q : (m : Method) → ι → Answer m → Assertion S) (i : ι) (s : S) :
    Option (Running I S Method Answer) → Prop
  | none => Idle i s
  | some call => ∃ P, C.Stable Inv i P ∧ P call.seen s ∧
      C.Outlines Inv i call.rest P fun a seen s => Q call.method i a seen s ∧ Idle i s

theorem Proceeds.others (hC : C.Outlined Inv Idle Q) {i j : ι} {s s' : S} {op : I.Op}
    {r : I.Reply op} {call : Option (Running I S Method Answer)} (hij : j ≠ i) (hinv : Inv s)
    (hexec : C.exec j s op r s') (h : C.Proceeds Inv Idle Q i s call) :
    C.Proceeds Inv Idle Q i s' call := by
  cases call with
  | none => exact (hC.idle i).others [] hij hinv hexec h
  | some call =>
    obtain ⟨P, hstable, hP, houtline⟩ := h
    exact ⟨P, hstable, hstable.others call.seen hij hinv hexec hP, houtline⟩

theorem Proceeds.env (hC : C.Outlined Inv Idle Q) {i : ι} {s s' : S}
    {call : Option (Running I S Method Answer)} (hinv : Inv s) (henv : C.env s s')
    (h : C.Proceeds Inv Idle Q i s call) : C.Proceeds Inv Idle Q i s' call := by
  cases call with
  | none => exact (hC.idle i).env [] hinv henv h
  | some call =>
    obtain ⟨P, hstable, hP, houtline⟩ := h
    exact ⟨P, hstable, hstable.env call.seen hinv henv hP, houtline⟩

section Reached
variable [DecidableEq ι]

/-- Every interleaving keeps the invariant, and every call keeps to its outline. -/
theorem Outlined.reaches (hC : C.Outlined Inv Idle Q) (hinv : Inv s₀) (hidle : ∀ i, Idle i s₀)
    (h : C.Reaches s₀ c) :
    Inv c.state ∧ ∀ i, C.Proceeds Inv Idle Q i c.state (c.running i) := by
  induction h with
  | refl => exact ⟨hinv, hidle⟩
  | tail _ hstep ih =>
    obtain ⟨hinv, hall⟩ := ih
    cases hstep with
    | @begin i m hnone hallowed =>
      refine ⟨hinv, fun j => ?_⟩
      by_cases hj : j = i
      · subst hj
        obtain ⟨P, hstable, hstart, houtline⟩ := hC.body j m
        have hidle := hall j
        rw [hnone] at hidle
        dsimp only
        rw [Function.update_self]
        exact ⟨P, hstable, hstart _ hinv hidle hallowed, houtline⟩
      · dsimp only
        rw [Function.update_of_ne hj]
        exact hall j
    | @call i m op next seen r s' hcall hexec =>
      have hi := hall i
      rw [hcall] at hi
      obtain ⟨P, -, hP, R, hstable, hstep, hnext⟩ := hi
      obtain ⟨hinv', hR⟩ := hstep seen _ r s' hinv hP hexec
      refine ⟨hinv', fun j => ?_⟩
      by_cases hj : j = i
      · subst hj
        dsimp only
        rw [Function.update_self]
        exact ⟨R r, hstable r, hR, hnext r⟩
      · dsimp only
        rw [Function.update_of_ne hj]
        exact (hall j).others hC (Ne.symm hj) hinv hexec
    | @done i m a seen hcall =>
      refine ⟨hinv, fun j => ?_⟩
      by_cases hj : j = i
      · subst hj
        have hi := hall j
        rw [hcall] at hi
        obtain ⟨P, -, hP, houtline⟩ := hi
        dsimp only
        rw [Function.update_self]
        exact (houtline seen _ hinv hP).2
      · dsimp only
        rw [Function.update_of_ne hj]
        exact hall j
    | env henv => exact ⟨hC.env hinv henv, fun j => (hall j).env hC hinv henv⟩

/-- What a call is about to return satisfies its postcondition. -/
theorem Outlined.returns (hC : C.Outlined Inv Idle Q) (hinv : Inv s₀) (hidle : ∀ i, Idle i s₀)
    (h : C.Reaches s₀ c) {i : ι} {m : Method} {a : Answer m} {seen : List S}
    (hcall : c.running i = some ⟨m, .ret a, seen⟩) : Q m i a seen c.state := by
  obtain ⟨hinv', hall⟩ := hC.reaches hinv hidle h
  have hi := hall i
  rw [hcall] at hi
  obtain ⟨P, -, hP, houtline⟩ := hi
  exact (houtline seen _ hinv' hP).1

end Reached

end Component

/-! ## Callers that may be killed

A killed caller does not live to see the reply, whether or not the operation was
carried out, and its call goes no further. What is proved of the methods by
outlines holds of callers that may be killed at any moment.
-/

/-- The same operations, where a reply may not be seen. -/
abbrev mortal (I : Interface) : Interface where
  Op := I.Op
  Reply op := Option (I.Reply op)

def Program.mortal {I : Interface} {α : Type} : Program I α → Program (mortal I) (Option α)
  | .ret a => .ret (some a)
  | .call op next => .call (I := FileService.Interaction.mortal I) op fun reply =>
    match reply with
    | some r => (next r).mortal
    | none => .ret none

namespace Component
variable {ι : Type} {I : Interface} {S Method : Type} {Answer : Method → Type}
variable (C : Component ι I S Method Answer)

/-- The component whose callers may be killed; a killed caller may begin another call. -/
def mortal : Component ι (FileService.Interaction.mortal I) S Method fun m => Option (Answer m) where
  exec i s op reply s' :=
    match reply with
    | some r => C.exec i s op r s'
    | none => s' = s ∨ ∃ r, C.exec i s op r s'
  env := C.env
  body m := (C.body m).mortal
  allowed := C.allowed

variable {C} {Inv : S → Prop} {i : ι} {α : Type} {P : Assertion S}

/-- A caller that is not killed goes on as before. -/
theorem performs_mortal {p : Program I α} {s s' : S} {t : List (Performed I S)} {a : α}
    (h : p.Performs (C.exec i) s t a s') :
    ∃ t', p.mortal.Performs (C.mortal.exec i) s t' (some a) s' := by
  induction p generalizing s t with
  | ret b =>
    obtain ⟨-, rfl, rfl⟩ := h
    exact ⟨[], rfl, rfl, rfl⟩
  | call op next ih =>
    obtain ⟨r, s₁, rest, hexec, -, hrest⟩ := h
    obtain ⟨t', hperforms⟩ := ih r hrest
    refine ⟨⟨s, op, some r, s₁⟩ :: t', ?_⟩
    rw [Program.mortal]
    exact ⟨some r, s₁, t', hexec, rfl, hperforms⟩

theorem uses_mortal {K : I.Op → Prop} {p : Program I α} (h : p.Uses K fun _ => True) :
    p.mortal.Uses (I := FileService.Interaction.mortal I) K fun _ => True := by
  induction p with
  | ret a => exact trivial
  | call op next ih =>
    rw [Program.mortal]
    refine ⟨h.1, fun reply => ?_⟩
    cases reply with
    | some r => exact ih r (h.2 r)
    | none => exact trivial

/-- What every method keeps to in its calls may be taken as a condition on the operations. -/
theorem Reaches.guaranteed_mortal [DecidableEq ι] {G : ι → I.Op → Prop} {s₀ : S}
    {c : Config ι (FileService.Interaction.mortal I) S Method fun m => Option (Answer m)}
    (hbody : ∀ i m s, C.allowed i m s → (C.body m).Uses (G i) fun _ => True)
    (h : C.mortal.Reaches s₀ c) : (C.restrict fun i _ op _ _ => G i op).mortal.Reaches s₀ c := by
  have hguaranteed := Reaches.guaranteed (C := C.mortal)
    (fun i m s hm => uses_mortal (hbody i m s hm)) h
  refine hguaranteed.mono fun i s op reply s' hexec => ?_
  obtain ⟨hexec, hop⟩ := hexec
  cases reply with
  | some r => exact ⟨hexec, hop⟩
  | none =>
    rcases hexec with rfl | ⟨r, hexec⟩
    · exact .inl rfl
    · exact .inr ⟨r, hexec, hop⟩

theorem Stable.mortal (h : C.Stable Inv i P) : C.mortal.Stable Inv i P where
  others := by
    intro j s op reply s' seen hj hinv hexec hP
    cases reply with
    | some r => exact h.others seen hj hinv hexec hP
    | none =>
      rcases hexec with rfl | ⟨r, hexec⟩
      · exact hP
      · exact h.others seen hj hinv hexec hP
  env := h.env

/-- A killed call has no answer, and nothing is said of it. -/
def answered {β : Type} (Q : β → Assertion S) (a : Option β) : Assertion S :=
  fun seen s => ∀ b, a = some b → Q b seen s

theorem Outlines.mortal {p : Program I α} {Q : α → Assertion S} (h : C.Outlines Inv i p P Q) :
    C.mortal.Outlines Inv i p.mortal P (answered Q) := by
  induction p generalizing P with
  | ret a =>
    rintro seen s hinv hP b ⟨⟩
    exact h seen s hinv hP
  | call op next ih =>
    obtain ⟨R, hstable, hstep, hnext⟩ := h
    rw [Program.mortal]
    refine ⟨fun reply => reply.elim (fun _ _ => True) R, ?_, ?_, ?_⟩
    · intro reply
      cases reply with
      | some r => exact (hstable r).mortal
      | none => exact ⟨fun _ _ _ _ _ => trivial, fun _ _ _ _ => trivial⟩
    · intro seen s reply s' hinv hP hexec
      cases reply with
      | some r => exact hstep seen s r s' hinv hP hexec
      | none =>
        rcases hexec with rfl | ⟨r, hexec⟩
        · exact ⟨hinv, trivial⟩
        · exact ⟨(hstep seen s r s' hinv hP hexec).1, trivial⟩
    · intro reply
      cases reply with
      | some r => exact ih r (hnext r)
      | none =>
        rintro seen s - - b ⟨⟩

/-- Methods that have outlines have them for callers that may be killed. -/
theorem Outlined.mortal {Q : (m : Method) → ι → Answer m → Assertion S}
    (h : C.Outlined Inv (fun _ _ => True) Q) :
    C.mortal.Outlined Inv (fun _ _ => True) fun m i => answered (Q m i) where
  idle i := (h.idle i).mortal
  env := h.env
  body := by
    intro i m
    obtain ⟨P, hstable, hstart, houtline⟩ := h.body i m
    refine ⟨P, hstable.mortal, hstart, houtline.mortal.strengthen ?_⟩
    intro a seen s hinv ha
    exact ⟨fun b hb => (ha b hb).1, trivial⟩

end Component

end FileService.Interaction
