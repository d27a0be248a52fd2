import FileService.Interaction.Program

/-!
# Executions of one program on a state

An execution records every call a program makes with its reply and with the
states before and after it, in the order of the calls. Nothing else moves the
state. A program for one interface runs over another one after its operations
have been translated.
-/
namespace FileService.Interaction

/-- The effect and the reply an operation can have in each state. -/
abbrev Effects (I : Interface) (S : Type) := S → (op : I.Op) → I.Reply op → S → Prop

structure Performed (I : Interface) (S : Type) where
  before : S
  op : I.Op
  reply : I.Reply op
  after : S

namespace Program
variable {I J : Interface} {S α β : Type} {exec : Effects I S}

/-- The program leads from `s` to `s'` through these calls and returns the value. -/
def Performs (exec : Effects I S) : Program I α → S → List (Performed I S) → α → S → Prop
  | .ret a, s, t, b, s' => t = [] ∧ b = a ∧ s' = s
  | .call op next, s, t, b, s' => ∃ r s₁ rest, exec s op r s₁ ∧ t = ⟨s, op, r, s₁⟩ :: rest ∧
      (next r).Performs exec s₁ rest b s'

variable {p : Program I α} {f : α → Program I β} {s s' : S} {t : List (Performed I S)}
variable {a b : α} {c : β} {op : I.Op}

@[simp] theorem performs_pure :
    (pure a : Program I α).Performs exec s t b s' ↔ t = [] ∧ b = a ∧ s' = s := Iff.rfl

theorem performs_perform {r : I.Reply op} : (perform op).Performs exec s t r s' ↔
    exec s op r s' ∧ t = [⟨s, op, r, s'⟩] := by
  constructor
  · rintro ⟨r', s₁, rest, hexec, rfl, rfl, rfl, rfl⟩
    exact ⟨hexec, rfl⟩
  · rintro ⟨hexec, rfl⟩
    exact ⟨r, s', [], hexec, rfl, rfl, rfl, rfl⟩

theorem performs_bind : (p >>= f).Performs exec s t c s' ↔
    ∃ t₁ a s₁ t₂, t = t₁ ++ t₂ ∧ p.Performs exec s t₁ a s₁ ∧ (f a).Performs exec s₁ t₂ c s' := by
  induction p generalizing s t with
  | ret a =>
    constructor
    · intro h
      exact ⟨[], a, s, t, rfl, ⟨rfl, rfl, rfl⟩, h⟩
    · rintro ⟨t₁, a', s₁, t₂, rfl, ⟨rfl, rfl, rfl⟩, h⟩
      exact h
  | call op next ih =>
    constructor
    · rintro ⟨r, s₁, rest, hexec, rfl, h⟩
      obtain ⟨t₁, a, s₂, t₂, rfl, h₁, h₂⟩ := (ih r).mp h
      exact ⟨_, a, s₂, t₂, rfl, ⟨r, s₁, t₁, hexec, rfl, h₁⟩, h₂⟩
    · rintro ⟨_, a, s₂, t₂, rfl, ⟨r, s₁, t₁, hexec, rfl, h₁⟩, h₂⟩
      exact ⟨r, s₁, t₁ ++ t₂, hexec, rfl, (ih r).mpr ⟨t₁, a, s₂, t₂, rfl, h₁, h₂⟩⟩

theorem performs_call_bind {next : I.Reply op → Program I β} :
    (perform op >>= next).Performs exec s t c s' ↔
      ∃ r s₁ rest, exec s op r s₁ ∧ t = ⟨s, op, r, s₁⟩ :: rest ∧
        (next r).Performs exec s₁ rest c s' := Iff.rfl

/-- The program whose operations are made as operations of `J`. -/
def translate (op : I.Op → J.Op) (reply : (o : I.Op) → J.Reply (op o) → I.Reply o) :
    Program I α → Program J α
  | .ret a => .ret a
  | .call o next => .call (op o) (fun r => (next (reply o r)).translate op reply)

/-- What every call of an execution keeps holds at its end. -/
theorem Performs.invariant {Inv : S → Prop} (h : p.Performs exec s t b s')
    (hstep : ∀ x ∈ t, exec x.before x.op x.reply x.after → Inv x.before → Inv x.after)
    (hs : Inv s) : Inv s' := by
  induction p generalizing s t with
  | ret a => exact h.2.2 ▸ hs
  | call op next ih =>
    obtain ⟨r, s₁, rest, hexec, rfl, hrest⟩ := h
    refine ih r hrest (fun x hx => hstep x (List.mem_cons_of_mem _ hx)) ?_
    exact hstep _ List.mem_cons_self hexec hs

/-- Effects may be exchanged for others that allow the same on the operations used. -/
theorem Performs.of_uses {exec' : Effects I S} {K : I.Op → Prop} {U : α → Prop}
    (h : p.Performs exec s t b s') (hp : p.Uses K U)
    (hexec : ∀ s op r s', K op → exec s op r s' → exec' s op r s') :
    p.Performs exec' s t b s' := by
  induction p generalizing s t with
  | ret a => exact h
  | call op next ih =>
    obtain ⟨r, s₁, rest, hcall, rfl, hrest⟩ := h
    exact ⟨r, s₁, rest, hexec _ _ _ _ hp.1 hcall, rfl, ih r hrest (hp.2 r)⟩

/-- The calls of an execution are calls of its program. -/
theorem Performs.op_of_uses {K : I.Op → Prop} {U : α → Prop} (h : p.Performs exec s t b s')
    (hp : p.Uses K U) : ∀ x ∈ t, K x.op := by
  induction p generalizing s t with
  | ret a =>
    obtain ⟨rfl, -⟩ := h
    simp
  | call op next ih =>
    obtain ⟨r, s₁, rest, -, rfl, hrest⟩ := h
    intro x hx
    rcases List.mem_cons.mp hx with rfl | hx
    · exact hp.1
    · exact ih r hrest (hp.2 r) x hx

/-- What no call makes true holds all along an execution at whose end it holds. -/
theorem Performs.holds_before {G : S → Prop} (h : p.Performs exec s t b s')
    (hback : ∀ s op r s', exec s op r s' → G s' → G s) (hend : G s') :
    G s ∧ ∀ x ∈ t, G x.after := by
  induction p generalizing s t with
  | ret a =>
    obtain ⟨rfl, -, rfl⟩ := h
    exact ⟨hend, by simp⟩
  | call op next ih =>
    obtain ⟨r, s₁, rest, hcall, rfl, hrest⟩ := h
    obtain ⟨hnext, hafter⟩ := ih r hrest
    refine ⟨hback _ _ _ _ hcall hnext, fun x hx => ?_⟩
    rcases List.mem_cons.mp hx with rfl | hx
    · exact hnext
    · exact hafter x hx

/-- An execution is repeated from a related state if every call of it can be repeated. -/
theorem Performs.simulate {T : S → S → Prop} {s₁ : S} (h : p.Performs exec s t b s')
    (hT : ∀ x ∈ t, ∀ s₁, exec x.before x.op x.reply x.after → T x.before s₁ →
      ∃ s₁', exec s₁ x.op x.reply s₁' ∧ T x.after s₁')
    (hs : T s s₁) : ∃ t₁ s₁', p.Performs exec s₁ t₁ b s₁' ∧ T s' s₁' := by
  induction p generalizing s t s₁ with
  | ret a =>
    obtain ⟨rfl, rfl, rfl⟩ := h
    exact ⟨[], s₁, ⟨rfl, rfl, rfl⟩, hs⟩
  | call op next ih =>
    obtain ⟨r, s₂, rest, hcall, rfl, hrest⟩ := h
    obtain ⟨s₃, hcall₃, hs₃⟩ := hT _ List.mem_cons_self s₁ hcall hs
    obtain ⟨t₁, s₁', hperforms, hend⟩ :=
      ih r hrest (fun x hx => hT x (List.mem_cons_of_mem _ hx)) hs₃
    exact ⟨_, s₁', ⟨r, s₃, t₁, hcall₃, rfl, hperforms⟩, hend⟩

/-- Carry a program out, one outcome being computed for every call. -/
def carryOut (step : S → (op : I.Op) → Option (I.Reply op × S)) : Program I α → S → Option (α × S)
  | .ret a, s => some (a, s)
  | .call op next, s => (step s op).bind fun (r, s') => (next r).carryOut step s'

theorem performs_of_carryOut {step : S → (op : I.Op) → Option (I.Reply op × S)}
    (hstep : ∀ s op r s', step s op = some (r, s') → exec s op r s')
    (h : p.carryOut step s = some (b, s')) : ∃ t, p.Performs exec s t b s' := by
  induction p generalizing s with
  | ret a =>
    cases h
    exact ⟨[], rfl, rfl, rfl⟩
  | call op next ih =>
    obtain ⟨⟨r, s₁⟩, hcall, hrest⟩ := Option.bind_eq_some_iff.mp h
    obtain ⟨t, hperforms⟩ := ih r hrest
    exact ⟨_, r, s₁, t, hstep s op r s₁ hcall, rfl, hperforms⟩

/-! ## What executions ensure -/

/-- Every execution from a state satisfying `P` ends with a value and a state satisfying `Q`. -/
def Ensures (exec : Effects I S) (P : S → Prop) (p : Program I α) (Q : α → S → Prop) : Prop :=
  ∀ s t a s', P s → p.Performs exec s t a s' → Q a s'

section Rules
variable {P P' : S → Prop} {Q : α → S → Prop} {Q' : β → S → Prop}

theorem ensures_pure (h : ∀ s, P s → Q a s) : Ensures exec P (pure a) Q := by
  rintro s t b s' hs ⟨-, rfl, rfl⟩
  exact h s' hs

theorem ensures_perform {Q : I.Reply op → S → Prop}
    (h : ∀ s r s', P s → exec s op r s' → Q r s') : Ensures exec P (perform op) Q := by
  intro s t r s' hs hperforms
  exact h s r s' hs (performs_perform.mp hperforms).1

theorem Ensures.bind (hp : Ensures exec P p Q) (hf : ∀ a, Ensures exec (Q a) (f a) Q') :
    Ensures exec P (p >>= f) Q' := by
  intro s t b s' hs hperforms
  obtain ⟨t₁, a, s₁, t₂, -, h₁, h₂⟩ := performs_bind.mp hperforms
  exact hf a s₁ t₂ b s' (hp s t₁ a s₁ hs h₁) h₂

theorem Ensures.mono {Q₂ : α → S → Prop} (hp : Ensures exec P p Q) (hP : ∀ s, P' s → P s)
    (hQ : ∀ a s, Q a s → Q₂ a s) : Ensures exec P' p Q₂ :=
  fun s t a s' hs hperforms => hQ a s' (hp s t a s' (hP s hs) hperforms)

theorem Ensures.discard (hp : Ensures exec P p fun _ => P') :
    Ensures exec P (discard p) fun _ => P' :=
  hp.bind fun _ => ensures_pure fun _ hs => hs

/-- What every call keeps, the program keeps. -/
theorem ensures_of_uses {K : I.Op → Prop} {U : α → Prop} (hp : p.Uses K U)
    (h : ∀ s op r s', K op → P s → exec s op r s' → P s') :
    Ensures exec P p fun a s => U a ∧ P s := by
  intro s t a s' hs hperforms
  induction p generalizing s t with
  | ret a =>
    obtain ⟨-, rfl, rfl⟩ := hperforms
    exact ⟨hp, hs⟩
  | call op next ih =>
    obtain ⟨r, s₁, rest, hcall, -, hrest⟩ := hperforms
    exact ih r (hp.2 r) s₁ rest (h s op r s₁ hp.1 hs hcall) hrest

end Rules

end Program

namespace Action
variable {I : Interface} {S ε α β : Type} {exec : Effects I S} {P P' : S → Prop}
variable {Q : α → S → Prop} {Q' : β → S → Prop} {E : ε → S → Prop} {x : Action I ε α}

/-- `Q` where the action returns, `E` where it exits. -/
def Ensures (exec : Effects I S) (P : S → Prop) (x : Action I ε α) (Q : α → S → Prop)
    (E : ε → S → Prop) : Prop :=
  Program.Ensures exec P (ExceptT.run x) fun out s =>
    match out with
    | .ok a => Q a s
    | .error e => E e s

theorem ensures_pure {a : α} (h : ∀ s, P s → Q a s) : Ensures exec P (pure a) Q E :=
  Program.ensures_pure h

theorem ensures_throw {e : ε} (h : ∀ s, P s → E e s) :
    Ensures exec P (throw e : Action I ε α) Q E :=
  Program.ensures_pure h

theorem Ensures.bind {f : α → Action I ε β} (hx : Ensures exec P x Q E)
    (hf : ∀ a, Ensures exec (Q a) (f a) Q' E) : Ensures exec P (x >>= f) Q' E :=
  Program.Ensures.bind hx fun out => by
    cases out with
    | ok a => exact hf a
    | error e => exact Program.ensures_pure fun s hs => hs

theorem Ensures.mono {Q₂ : α → S → Prop} {E₂ : ε → S → Prop} (hx : Ensures exec P x Q E)
    (hP : ∀ s, P' s → P s) (hQ : ∀ a s, Q a s → Q₂ a s) (hE : ∀ e s, E e s → E₂ e s) :
    Ensures exec P' x Q₂ E₂ :=
  Program.Ensures.mono hx hP fun out s h => by
    cases out with
    | ok a => exact hQ a s h
    | error e => exact hE e s h

theorem Ensures.exitingWith {E' : ε → S → Prop} {after : Except ε α → Program I (Except ε β)}
    (hx : Ensures exec P x Q E)
    (hok : ∀ a, Ensures exec (Q a) (ExceptT.mk (after (.ok a))) Q' E')
    (herror : ∀ e, Ensures exec (E e) (ExceptT.mk (after (.error e))) Q' E') :
    Ensures exec P (x.exitingWith after) Q' E' :=
  Program.Ensures.bind hx fun out => by
    cases out with
    | ok a => exact hok a
    | error e => exact herror e

/-- What the states say of the values may be used. -/
theorem Ensures.of_fact {F : Prop} (hF : ∀ s, P s → F) (hx : F → Ensures exec P x Q E) :
    Ensures exec P x Q E :=
  fun s t out s' hs hperforms => hx (hF s hs) s t out s' hs hperforms

/-- A state may satisfy the condition for one of several values. -/
theorem Ensures.of_exists {ι : Sort*} {P : ι → S → Prop} (hx : ∀ i, Ensures exec (P i) x Q E) :
    Ensures exec (fun s => ∃ i, P i s) x Q E :=
  fun s t out s' ⟨i, hs⟩ hperforms => hx i s t out s' hs hperforms

theorem ensures_lift {p : Program I α} (h : Program.Ensures exec P p Q) :
    Ensures exec P (lift p : Action I ε α) Q E :=
  Program.Ensures.bind h fun _ => Program.ensures_pure fun _ hs => hs

theorem ensures_call {op : I.Op} {Q : I.Reply op → S → Prop}
    (h : ∀ s r s', P s → exec s op r s' → Q r s') :
    Ensures exec P (call op : Action I ε (I.Reply op)) Q E :=
  ensures_lift (Program.ensures_perform h)

/-- What every call keeps, the action keeps. -/
theorem ensures_of_uses {K : I.Op → Prop} {U : Except ε α → Prop}
    (hx : (ExceptT.run x).Uses K U) (h : ∀ s op r s', K op → P s → exec s op r s' → P s') :
    Ensures exec P x (fun a s => U (.ok a) ∧ P s) fun _ s => P s :=
  (Program.ensures_of_uses hx h).mono (fun _ hs => hs) fun out s hend => by
    cases out with
    | ok a => exact hend
    | error e => exact hend.2

end Action

end FileService.Interaction
