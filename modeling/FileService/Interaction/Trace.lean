import FileService.Interaction.Program

/-!
# Traces of programs

A trace is the sequence of the calls a program makes, each with the reply it
got. Nothing is assumed of the replies, so the traces of a program are all its
behaviours under every possible environment.
-/
namespace FileService.Interaction

/-- One call of a program, with its reply. -/
structure Occurrence (I : Interface) where
  op : I.Op
  reply : I.Reply op

abbrev Trace (I : Interface) := List (Occurrence I)

namespace Program
variable {I : Interface} {α β : Type}

/-- The program makes the calls of the trace and returns the value. -/
def Emits : Program I α → Trace I → α → Prop
  | .ret a, t, b => t = [] ∧ b = a
  | .call op next, t, b => ∃ r rest, t = ⟨op, r⟩ :: rest ∧ (next r).Emits rest b

variable {p : Program I α} {f : α → Program I β} {t : Trace I} {a : α} {b : β} {op : I.Op}

@[simp] theorem emits_pure {a' : α} : (pure a : Program I α).Emits t a' ↔ t = [] ∧ a' = a :=
  Iff.rfl

@[simp] theorem emits_perform {r : I.Reply op} : (perform op).Emits t r ↔ t = [⟨op, r⟩] := by
  constructor
  · rintro ⟨r', rest, rfl, rfl, rfl⟩
    rfl
  · rintro rfl
    exact ⟨r, [], rfl, rfl, rfl⟩

theorem emits_bind : (p >>= f).Emits t b ↔
    ∃ before a after, t = before ++ after ∧ p.Emits before a ∧ (f a).Emits after b := by
  induction p generalizing t with
  | ret a =>
    constructor
    · intro h
      exact ⟨[], a, t, rfl, ⟨rfl, rfl⟩, h⟩
    · rintro ⟨before, a', after, rfl, ⟨rfl, rfl⟩, h⟩
      exact h
  | call op next ih =>
    constructor
    · rintro ⟨r, rest, rfl, h⟩
      obtain ⟨before, a, after, rfl, hbefore, hafter⟩ := (ih r).mp h
      exact ⟨⟨op, r⟩ :: before, a, after, rfl, ⟨r, before, rfl, hbefore⟩, hafter⟩
    · rintro ⟨_, a, after, rfl, ⟨r, before, rfl, hbefore⟩, hafter⟩
      exact ⟨r, before ++ after, rfl, (ih r).mpr ⟨before, a, after, rfl, hbefore, hafter⟩⟩

theorem emits_call_bind {next : I.Reply op → Program I β} : (perform op >>= next).Emits t b ↔
    ∃ r rest, t = ⟨op, r⟩ :: rest ∧ (next r).Emits rest b := Iff.rfl

/-- Going through a list emits what the items emit, one after the other. -/
theorem emits_mapM_cons {γ : Type} {g : γ → Program I α} {x : γ} {xs : List γ} {values : List α} :
    ((x :: xs).mapM g).Emits t values ↔ ∃ before after value rest, t = before ++ after ∧
      values = value :: rest ∧ (g x).Emits before value ∧ (xs.mapM g).Emits after rest := by
  rw [List.mapM_cons]
  simp only [emits_bind, emits_pure]
  constructor
  · rintro ⟨before, value, _, rfl, hx, after, rest, _, rfl, hxs, rfl, rfl⟩
    exact ⟨before, after, value, rest, by simp, rfl, hx, hxs⟩
  · rintro ⟨before, after, value, rest, rfl, rfl, hx, hxs⟩
    exact ⟨before, value, after, rfl, hx, after, rest, [], by simp, hxs, rfl, rfl⟩

theorem emits_mapM_nil {γ : Type} {g : γ → Program I α} {values : List α} :
    (([] : List γ).mapM g).Emits t values ↔ t = [] ∧ values = [] := Iff.rfl

theorem emits_mapM_length {γ : Type} {g : γ → Program I α} {xs : List γ} {values : List α}
    (h : (xs.mapM g).Emits t values) : values.length = xs.length := by
  induction xs generalizing t values with
  | nil =>
    obtain ⟨-, rfl⟩ := emits_mapM_nil.mp h
    rfl
  | cons x xs ih =>
    obtain ⟨_, _, _, _, -, rfl, -, hrest⟩ := emits_mapM_cons.mp h
    rw [List.length_cons, ih hrest, List.length_cons]

/-- The trace and the value of a program whose calls are answered by a function. -/
def answered (reply : (op : I.Op) → I.Reply op) : Program I α → Trace I × α
  | .ret a => ([], a)
  | .call op next =>
    let rest := (next (reply op)).answered reply
    (⟨op, reply op⟩ :: rest.1, rest.2)

theorem emits_answered (reply : (op : I.Op) → I.Reply op) (p : Program I α) :
    p.Emits (p.answered reply).1 (p.answered reply).2 := by
  induction p with
  | ret a => exact ⟨rfl, rfl⟩
  | call op next ih => exact ⟨reply op, _, rfl, ih (reply op)⟩

theorem reply_of_mem_answered {reply : (op : I.Op) → I.Reply op} {o : Occurrence I}
    (h : o ∈ (p.answered reply).1) : o.reply = reply o.op := by
  induction p with
  | ret a => cases h
  | call op next ih =>
    rcases List.mem_cons.mp h with rfl | h
    · rfl
    · exact ih _ h

end Program

namespace Action
variable {I : Interface} {ε α β : Type} {x : Action I ε α} {f : α → Action I ε β} {t : Trace I}
variable {b : β}

/-- An action that returns goes on from a value that its first part returns. -/
theorem emits_ok_bind : (ExceptT.run (x >>= f)).Emits t (.ok b) ↔
    ∃ before a after, t = before ++ after ∧ (ExceptT.run x).Emits before (.ok a) ∧
      (ExceptT.run (f a)).Emits after (.ok b) := by
  have hbind : ExceptT.run (x >>= f) = ExceptT.run x >>= ExceptT.bindCont f := rfl
  rw [hbind, Program.emits_bind]
  constructor
  · rintro ⟨before, out, after, rfl, hx, hf⟩
    cases out with
    | ok a => exact ⟨before, a, after, rfl, hx, hf⟩
    | error e => cases hf.2
  · rintro ⟨before, a, after, rfl, hx, hf⟩
    exact ⟨before, .ok a, after, rfl, hx, hf⟩

theorem emits_ok_pure {a a' : α} : (ExceptT.run (pure a : Action I ε α)).Emits t (.ok a') ↔
    t = [] ∧ a' = a := by
  constructor
  · rintro ⟨rfl, h⟩
    cases h
    exact ⟨rfl, rfl⟩
  · rintro ⟨rfl, rfl⟩
    exact ⟨rfl, rfl⟩

theorem not_emits_ok_throw {e : ε} {a : α} :
    ¬(ExceptT.run (throw e : Action I ε α)).Emits t (.ok a) := by
  rintro ⟨-, h⟩
  cases h

theorem emits_ok_call {op : I.Op} {r : I.Reply op} :
    (ExceptT.run (call op : Action I ε (I.Reply op))).Emits t (.ok r) ↔ t = [⟨op, r⟩] := by
  constructor
  · rintro ⟨r', rest, rfl, rfl, h⟩
    cases h
    rfl
  · rintro rfl
    exact ⟨r, [], rfl, rfl, rfl⟩

end Action

end FileService.Interaction
