import FileService.Interaction.Execution
import FileService.Interaction.Trace

/-!
# What a program does if its environment behaves

A program relies on a condition on the replies and guarantees one on its calls
and one on its value. The guarantees hold along every trace whose replies meet
the condition. So do the items that its calls output on the way.
-/
namespace FileService.Interaction

/-- A condition on the replies to each operation. -/
abbrev Assumption (I : Interface) := (op : I.Op) → I.Reply op → Prop

namespace Program
variable {I : Interface} {α β : Type} {R : Assumption I} {K : I.Op → Prop} {Q : α → Prop}
variable {Q' : β → Prop} {p : Program I α}

/-- Where the replies satisfy `R`, every call satisfies `K` and the value satisfies `Q`. -/
def Relies (R : Assumption I) (K : I.Op → Prop) (Q : α → Prop) : Program I α → Prop
  | .ret a => Q a
  | .call op next => K op ∧ ∀ r, R op r → (next r).Relies R K Q

theorem relies_bind {f : α → Program I β} (hp : p.Relies R K Q)
    (hf : ∀ a, Q a → (f a).Relies R K Q') : (p >>= f).Relies R K Q' := by
  induction p with
  | ret a => exact hf a hp
  | call op next ih => exact ⟨hp.1, fun r hr => ih r (hp.2 r hr)⟩

/-- What is called whatever the replies are is called where they satisfy a condition. -/
theorem Uses.relies (hp : p.Uses K Q) : p.Relies R K Q := by
  induction p with
  | ret a => exact hp
  | call op next ih => exact ⟨hp.1, fun r _ => ih r (hp.2 r)⟩

theorem Relies.imp (hp : p.Relies R K Q) {Q₂ : α → Prop} (hQ : ∀ a, Q a → Q₂ a) :
    p.Relies R K Q₂ := by
  induction p with
  | ret a => exact hQ a hp
  | call op next ih => exact ⟨hp.1, fun r hr => ih r (hp.2 r hr)⟩

theorem Relies.allowing (hp : p.Relies R K Q) {K' : I.Op → Prop} (hK : ∀ op, K op → K' op) :
    p.Relies R K' Q := by
  induction p with
  | ret a => exact hp
  | call op next ih => exact ⟨hK op hp.1, fun r hr => ih r (hp.2 r hr)⟩

/-- The guarantees hold along every trace whose replies meet the assumption. -/
theorem Relies.along {t : Trace I} {a : α} (hp : p.Relies R K Q) (ht : p.Emits t a)
    (hR : ∀ o ∈ t, R o.op o.reply) : (∀ o ∈ t, K o.op) ∧ Q a := by
  induction p generalizing t with
  | ret b =>
    obtain ⟨rfl, rfl⟩ := ht
    exact ⟨by simp, hp⟩
  | call op next ih =>
    obtain ⟨r, rest, rfl, hrest⟩ := ht
    obtain ⟨hr, hR⟩ := List.forall_mem_cons.mp hR
    obtain ⟨hcalls, ha⟩ := ih r (hp.2 r hr) hrest hR
    exact ⟨List.forall_mem_cons.mpr ⟨hp.1, hcalls⟩, ha⟩

section Executions
variable {S : Type} {exec : Effects I S} {s s' : S} {a : α}

/-- Where the calls that are allowed keep a condition on the states and are answered as
assumed, so does the whole program, and its value satisfies `Q`. -/
theorem Relies.performed {Inv : S → Prop} {t : List (Performed I S)} (hp : p.Relies R K Q)
    (hstep : ∀ s op r s', K op → Inv s → exec s op r s' → R op r ∧ Inv s')
    (h : p.Performs exec s t a s') (hs : Inv s) : Inv s' ∧ Q a := by
  induction p generalizing s t with
  | ret b =>
    obtain ⟨-, rfl, rfl⟩ := h
    exact ⟨hs, hp⟩
  | call op next ih =>
    obtain ⟨r, s₁, rest, hcall, -, hrest⟩ := h
    obtain ⟨hr, hs₁⟩ := hstep s op r s₁ hp.1 hs hcall
    exact ih r (hp.2 r hr) hrest hs₁

/-- Where every allowed call has an outcome, the program has an execution. -/
theorem Relies.exists_performs (hp : p.Relies (fun _ _ => True) K Q)
    (hexec : ∀ s op, K op → ∃ r s', exec s op r s') : ∃ t a s', p.Performs exec s t a s' := by
  induction p generalizing s with
  | ret a => exact ⟨[], a, s, rfl, rfl, rfl⟩
  | call op next ih =>
    obtain ⟨r, s₁, hcall⟩ := hexec s op hp.1
    obtain ⟨rest, a, s', hrest⟩ := ih r (hp.2 r trivial)
    exact ⟨_, a, s', r, s₁, rest, hcall, rfl, hrest⟩

end Executions

end Program

namespace Action
variable {I : Interface} {ε α β : Type} {R : Assumption I} {K : I.Op → Prop}
variable {Q : α → Prop} {Q' : β → Prop} {x : Action I ε α}

/-- Where the replies satisfy `R`, every call satisfies `K` and a returned value satisfies `Q`. -/
def Relies (R : Assumption I) (K : I.Op → Prop) (Q : α → Prop) (x : Action I ε α) : Prop :=
  (ExceptT.run x).Relies R K fun out => ∀ a, out = .ok a → Q a

theorem relies_pure {a : α} (h : Q a) : Relies R K Q (pure a : Action I ε α) := by
  rintro b ⟨⟩
  exact h

theorem relies_throw {e : ε} : Relies R K Q (throw e : Action I ε α) := by
  rintro b ⟨⟩

theorem relies_call {op : I.Op} (h : K op) : Relies R K (R op) (call op : Action I ε (I.Reply op)) :=
  ⟨h, fun r hr => by
    rintro a ⟨⟩
    exact hr⟩

theorem relies_bind {f : α → Action I ε β} (hx : Relies R K Q x)
    (hf : ∀ a, Q a → Relies R K Q' (f a)) : Relies R K Q' (x >>= f) := by
  refine Program.relies_bind hx fun out hout => ?_
  cases out with
  | ok a => exact hf a (hout a rfl)
  | error e => rintro b ⟨⟩

theorem Relies.imp (hx : Relies R K Q x) {Q₂ : α → Prop} (hQ : ∀ a, Q a → Q₂ a) :
    Relies R K Q₂ x :=
  Program.Relies.imp hx fun _ hout a ha => hQ a (hout a ha)

theorem relies_exitingWith {after : Except ε α → Program I (Except ε β)}
    (hx : Relies R K Q x) (hafter : ∀ out, (∀ a, out = .ok a → Q a) →
      (after out).Relies R K fun out' => ∀ b, out' = .ok b → Q' b) :
    Relies R K Q' (x.exitingWith after) :=
  Program.relies_bind hx hafter

/-- A loop over a list that keeps a property of its accumulator. -/
theorem relies_foldlM {γ : Type} {f : β → γ → Action I ε β} {xs : List γ}
    (hf : ∀ b, Q' b → ∀ c ∈ xs, Relies R K Q' (f b c)) {b : β} (hb : Q' b) :
    Relies R K Q' (xs.foldlM f b) := by
  induction xs generalizing b with
  | nil => exact relies_pure hb
  | cons c xs ih =>
    rw [List.foldlM_cons]
    refine relies_bind (hf b hb c List.mem_cons_self) fun b' hb' => ?_
    exact ih (fun b hb c hc => hf b hb c (List.mem_cons_of_mem _ hc)) hb'

/-- A loop that makes one value of each element. -/
theorem relies_mapM {γ : Type} {f : γ → Action I ε β} {xs : List γ}
    (hf : ∀ c ∈ xs, Relies R K (fun _ => True) (f c)) :
    Relies R K (fun _ => True) (xs.mapM f) := by
  induction xs with
  | nil => exact relies_pure trivial
  | cons c xs ih =>
    rw [List.mapM_cons]
    apply relies_bind (hf c List.mem_cons_self)
    intro b _
    apply relies_bind (ih fun c hc => hf c (List.mem_cons_of_mem _ hc))
    intro bs _
    exact relies_pure trivial

end Action

/-!
## What the calls of a program output

Every call may output some items, depending on its reply. The items of a trace
are those of its calls in order. A program is specified by the items it outputs
together with the value it returns.
-/

/-- The items that the calls of a trace output. -/
def Trace.collected {I : Interface} {κ : Type} (out : Occurrence I → List κ) (t : Trace I) : List κ :=
  t.flatMap out

namespace Program
variable {I : Interface} {κ α β : Type} {out : Occurrence I → List κ} {R : Assumption I}
variable {p : Program I α} {Q : List κ → α → Prop} {Q' : List κ → β → Prop}

/-- Where the replies satisfy `R`, the items and the value satisfy `Q`. -/
def Outputs (out : Occurrence I → List κ) (R : Assumption I) (p : Program I α)
    (Q : List κ → α → Prop) : Prop :=
  ∀ t a, p.Emits t a → (∀ o ∈ t, R o.op o.reply) → Q (t.collected out) a

theorem outputs_pure {a : α} (h : Q [] a) : Outputs out R (pure a) Q := by
  rintro t b ⟨rfl, rfl⟩ -
  exact h

theorem outputs_perform {op : I.Op} {Q : List κ → I.Reply op → Prop}
    (h : ∀ r, R op r → Q (out ⟨op, r⟩) r) : Outputs out R (perform op) Q := by
  intro t r hemits hR
  obtain rfl := emits_perform.mp hemits
  simpa [Trace.collected] using h r (hR _ List.mem_cons_self)

theorem Outputs.bind {f : α → Program I β} (hp : Outputs out R p Q)
    (hf : ∀ before a, Q before a → Outputs out R (f a) fun after => Q' (before ++ after)) :
    Outputs out R (p >>= f) Q' := by
  intro t b hemits hR
  obtain ⟨t₁, a, t₂, rfl, h₁, h₂⟩ := emits_bind.mp hemits
  simp only [List.mem_append] at hR
  have hbefore := hp t₁ a h₁ fun o ho => hR o (.inl ho)
  have hafter := hf _ a hbefore t₂ b h₂ fun o ho => hR o (.inr ho)
  simpa [Trace.collected] using hafter

theorem Outputs.imp {Q₂ : List κ → α → Prop} (hp : Outputs out R p Q)
    (hQ : ∀ items a, Q items a → Q₂ items a) : Outputs out R p Q₂ :=
  fun t a hemits hR => hQ _ a (hp t a hemits hR)

/-- A program whose calls output nothing, and of whose value nothing is said. -/
theorem outputs_of_uses {K : I.Op → Prop} {U : α → Prop} (hp : p.Uses K U)
    (hout : ∀ op r, K op → R op r → out ⟨op, r⟩ = []) :
    Outputs out R p fun items a => items = [] ∧ U a := by
  induction p with
  | ret a => exact outputs_pure ⟨rfl, hp⟩
  | call op next ih =>
    rintro t a ⟨r, rest, rfl, hrest⟩ hR
    rw [List.forall_mem_cons] at hR
    have hnext := ih r (hp.2 r) rest a hrest hR.2
    simpa [Trace.collected, hout op r hp.1 hR.1] using hnext

end Program

namespace Action
variable {I : Interface} {κ ε α β : Type} {out : Occurrence I → List κ} {R : Assumption I}
variable {x : Action I ε α} {Q : List κ → α → Prop} {Q' : List κ → β → Prop}
variable {E : List κ → ε → Prop}

/-- `Q` of the items where the action returns, `E` where it exits. -/
def Outputs (out : Occurrence I → List κ) (R : Assumption I) (x : Action I ε α)
    (Q : List κ → α → Prop) (E : List κ → ε → Prop) : Prop :=
  Program.Outputs out R (ExceptT.run x) fun items result =>
    match result with
    | .ok a => Q items a
    | .error e => E items e

theorem outputs_pure {a : α} (h : Q [] a) : Outputs out R (pure a : Action I ε α) Q E :=
  Program.outputs_pure h

theorem outputs_throw {e : ε} (h : E [] e) : Outputs out R (throw e : Action I ε α) Q E :=
  Program.outputs_pure h

theorem Outputs.bind {f : α → Action I ε β} (hx : Outputs out R x Q E)
    (hf : ∀ before a, Q before a → Outputs out R (f a) (fun after => Q' (before ++ after))
      fun after => E (before ++ after)) : Outputs out R (x >>= f) Q' E :=
  Program.Outputs.bind hx fun before result => by
    cases result with
    | ok a => exact hf before a
    | error e =>
      intro he
      exact Program.outputs_pure (by simpa using he)

theorem Outputs.imp {Q₂ : List κ → α → Prop} {E₂ : List κ → ε → Prop} (hx : Outputs out R x Q E)
    (hQ : ∀ items a, Q items a → Q₂ items a) (hE : ∀ items e, E items e → E₂ items e) :
    Outputs out R x Q₂ E₂ :=
  Program.Outputs.imp hx fun items result h => by
    cases result with
    | ok a => exact hQ items a h
    | error e => exact hE items e h

theorem outputs_call {op : I.Op} {Q : List κ → I.Reply op → Prop}
    (h : ∀ r, R op r → Q (out ⟨op, r⟩) r) :
    Outputs out R (call op : Action I ε (I.Reply op)) Q E :=
  Program.Outputs.bind (Program.outputs_perform (Q := fun items r => Q items r) h) fun before r hr =>
    Program.outputs_pure (by simpa using hr)

theorem Outputs.exitingWith {E' : List κ → ε → Prop} {after : Except ε α → Program I (Except ε β)}
    (hx : Outputs out R x Q E)
    (hok : ∀ before a, Q before a → Outputs out R (ExceptT.mk (after (.ok a)))
      (fun items => Q' (before ++ items)) fun items => E' (before ++ items))
    (herror : ∀ before e, E before e → Outputs out R (ExceptT.mk (after (.error e)))
      (fun items => Q' (before ++ items)) fun items => E' (before ++ items)) :
    Outputs out R (x.exitingWith after) Q' E' :=
  Program.Outputs.bind hx fun before result => by
    cases result with
    | ok a => exact hok before a
    | error e => exact herror before e

/-- An action whose calls output nothing but items that satisfy `P`. -/
theorem Relies.outputs {K : I.Op → Prop} {Q : α → Prop} {P : κ → Prop} (hx : Relies R K Q x)
    (hout : ∀ op r, K op → R op r → ∀ item ∈ out ⟨op, r⟩, P item) :
    Outputs out R x (fun items a => (∀ item ∈ items, P item) ∧ Q a)
      fun items _ => ∀ item ∈ items, P item := by
  intro t result hemits hR
  obtain ⟨hcalls, hvalue⟩ := Program.Relies.along hx hemits hR
  have hitems : ∀ item ∈ t.collected out, P item := by
    intro item hitem
    obtain ⟨o, ho, hmem⟩ := List.mem_flatMap.mp hitem
    exact hout o.op o.reply (hcalls o ho) (hR o ho) item hmem
  cases result with
  | ok a => exact ⟨hitems, hvalue a rfl⟩
  | error e => exact hitems

end Action

end FileService.Interaction
