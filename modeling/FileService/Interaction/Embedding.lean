import FileService.Interaction.Execution
import FileService.Interaction.Trace

/-!
# Programs on larger interfaces

The runs of a program that was translated to another interface, and the runs of
actions part by part.
-/
namespace FileService.Interaction

namespace Program
variable {I J : Interface} {α : Type}

variable {embed : I.Op → J.Op} {reply : (op : I.Op) → J.Reply (embed op) → I.Reply op}
variable {p : Program I α} {t : Trace J} {a : α}

/-- Every run of the translated program is a run of the program itself. -/
theorem emits_translate (h : (p.translate embed reply).Emits t a) :
    ∃ t', p.Emits t' a ∧ t.map Occurrence.op = t'.map fun o => embed o.op := by
  induction p generalizing t with
  | ret b => exact ⟨[], ⟨rfl, h.2⟩, by simp [h.1]⟩
  | call op next ih =>
    obtain ⟨r, rest, rfl, hrest⟩ := h
    obtain ⟨t', hp, hops⟩ := ih (reply op r) hrest
    exact ⟨⟨op, reply op r⟩ :: t', ⟨_, t', rfl, hp⟩, by simp [hops]⟩

theorem Uses.translate {K : I.Op → Prop} {Q : α → Prop} (hp : p.Uses K Q) :
    (p.translate embed reply).Uses (fun o => ∃ op, o = embed op ∧ K op) Q := by
  induction p with
  | ret b => exact hp
  | call op next ih => exact ⟨⟨op, rfl, hp.1⟩, fun r => ih (reply op r) (hp.2 (reply op r))⟩

/-- What is said of the value may be left out. -/
theorem Uses.forget {I : Interface} {p : Program I α} {K : I.Op → Prop} {Q : α → Prop}
    (hp : p.Uses K Q) : p.Uses K fun _ => True := by
  induction p with
  | ret a => trivial
  | call op next ih => exact ⟨hp.1, fun r => ih r (hp.2 r)⟩

/-- The operations of a run are among those that the program may call. -/
theorem Uses.emitted {K : I.Op → Prop} {Q : α → Prop} {t : Trace I} (hp : p.Uses K Q)
    (h : p.Emits t a) : (∀ o ∈ t, K o.op) ∧ Q a := by
  induction p generalizing t with
  | ret b =>
    obtain ⟨rfl, rfl⟩ := h
    exact ⟨by simp, hp⟩
  | call op next ih =>
    obtain ⟨r, rest, rfl, hrest⟩ := h
    obtain ⟨hrest, ha⟩ := ih r (hp.2 r) hrest
    exact ⟨by simpa using ⟨hp.1, hrest⟩, ha⟩

end Program

namespace Action
variable {I : Interface} {ε α β : Type} {x : Action I ε α} {f : α → Action I ε β} {t : Trace I}

/-- An action goes on after a value and ends with an exit. -/
theorem emits_run_bind {out : Except ε β} : (ExceptT.run (x >>= f)).Emits t out ↔
    ∃ before r after, t = before ++ after ∧ (ExceptT.run x).Emits before r ∧
      match r with
      | .ok a => (ExceptT.run (f a)).Emits after out
      | .error e => after = [] ∧ out = .error e := by
  have hbind : ExceptT.run (x >>= f) = ExceptT.run x >>= ExceptT.bindCont f := rfl
  rw [hbind, Program.emits_bind]
  constructor
  · rintro ⟨before, r, after, rfl, hx, hf⟩
    cases r with
    | ok a => exact ⟨before, .ok a, after, rfl, hx, hf⟩
    | error e => exact ⟨before, .error e, after, rfl, hx, hf⟩
  · rintro ⟨before, r, after, rfl, hx, hf⟩
    cases r with
    | ok a => exact ⟨before, .ok a, after, rfl, hx, hf⟩
    | error e => exact ⟨before, .error e, after, rfl, hx, hf⟩

end Action

/-! ## Actions that return

An action that returns a value has gone through all its parts, each of which
returned as well.
-/

namespace Action
variable {I : Interface} {S ε α β : Type} {exec : Effects I S} {s s' : S}
variable {t : List (Performed I S)} {x : Action I ε α} {f : α → Action I ε β} {a : α} {c : β}

/-- The action leads from `s` to `s'` through these calls and returns the value. -/
def Returns (exec : Effects I S) (x : Action I ε α) (s : S) (t : List (Performed I S)) (a : α)
    (s' : S) : Prop :=
  (ExceptT.run x).Performs exec s t (.ok a) s'

theorem returns_pure {b : α} : Returns exec (pure a : Action I ε α) s t b s' ↔
    t = [] ∧ b = a ∧ s' = s := by
  constructor
  · rintro ⟨rfl, h, rfl⟩
    exact ⟨rfl, Except.ok.inj h, rfl⟩
  · rintro ⟨rfl, rfl, rfl⟩
    exact ⟨rfl, rfl, rfl⟩

theorem not_returns_throw {e : ε} {b : α} : ¬Returns exec (throw e : Action I ε α) s t b s' := by
  rintro ⟨-, h, -⟩
  cases h

theorem returns_bind : Returns exec (x >>= f) s t c s' ↔
    ∃ t₁ a s₁ t₂, t = t₁ ++ t₂ ∧ Returns exec x s t₁ a s₁ ∧ Returns exec (f a) s₁ t₂ c s' := by
  constructor
  · intro h
    obtain ⟨t₁, out, s₁, t₂, ht, h₁, h₂⟩ := Program.performs_bind.mp h
    cases out with
    | ok a => exact ⟨t₁, a, s₁, t₂, ht, h₁, h₂⟩
    | error e => exact absurd h₂ not_returns_throw
  · rintro ⟨t₁, a, s₁, t₂, ht, h₁, h₂⟩
    exact Program.performs_bind.mpr ⟨t₁, .ok a, s₁, t₂, ht, h₁, h₂⟩

theorem returns_call_bind {op : I.Op} {f : I.Reply op → Action I ε β} :
    Returns exec (call op >>= f) s t c s' ↔ ∃ r s₁ rest, exec s op r s₁ ∧
      t = ⟨s, op, r, s₁⟩ :: rest ∧ Returns exec (f r) s₁ rest c s' := by
  rw [returns_bind]
  constructor
  · rintro ⟨t₁, r, s₁, t₂, rfl, ⟨r', s₂, rest, hexec, rfl, hret⟩, hrest⟩
    obtain ⟨rfl, h, rfl⟩ := hret
    cases h
    exact ⟨r, s₁, t₂, hexec, rfl, hrest⟩
  · rintro ⟨r, s₁, rest, hexec, rfl, hrest⟩
    exact ⟨_, r, s₁, rest, rfl, ⟨r, s₁, [], hexec, rfl, rfl, rfl, rfl⟩, hrest⟩

end Action

end FileService.Interaction
