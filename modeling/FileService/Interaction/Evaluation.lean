import FileService.Interaction.Execution
import FileService.Interaction.Trace

/-!
# Programs whose calls are answered

If a function answers all calls, a program returns one value. Where each
operation has one reply and one effect in each state, a program has one
execution from each state. Both can be evaluated part by part.
-/
namespace FileService.Interaction

namespace Program
variable {I : Interface} {α β : Type} (reply : (op : I.Op) → I.Reply op)

/-- What the program returns. -/
def value (p : Program I α) : α := (p.answered reply).2

@[simp] theorem value_pure (a : α) : (pure a : Program I α).value reply = a := rfl

@[simp] theorem value_perform (op : I.Op) : (perform op : Program I _).value reply = reply op := rfl

theorem value_bind (p : Program I α) (f : α → Program I β) :
    (p >>= f).value reply = (f (p.value reply)).value reply := by
  induction p with
  | ret a => rfl
  | call op next ih => exact ih (reply op)

end Program

namespace Action
variable {I : Interface} {ε α β : Type} (reply : (op : I.Op) → I.Reply op)

/-- How the action leaves. -/
def outcome (x : Action I ε α) : Except ε α := (ExceptT.run x).value reply

@[simp] theorem outcome_pure (a : α) : outcome reply (pure a : Action I ε α) = .ok a := rfl

@[simp] theorem outcome_throw (e : ε) : outcome reply (throw e : Action I ε α) = .error e := rfl

@[simp] theorem outcome_call (op : I.Op) :
    outcome reply (call op : Action I ε (I.Reply op)) = .ok (reply op) := rfl

theorem outcome_bind (x : Action I ε α) (f : α → Action I ε β) :
    outcome reply (x >>= f) = match outcome reply x with
      | .ok a => outcome reply (f a)
      | .error e => .error e := by
  have hbind : ExceptT.run (x >>= f) = ExceptT.run x >>= ExceptT.bindCont f := rfl
  unfold outcome
  rw [hbind, Program.value_bind]
  cases (ExceptT.run x).value reply with
  | ok a => rfl
  | error e => rfl

theorem outcome_exitingWith (body : Action I ε α) (after : Except ε α → Program I (Except ε β)) :
    outcome reply (body.exitingWith after) = (after (outcome reply body)).value reply :=
  Program.value_bind reply body.run after

/-- Going through a list leaves as the items do. -/
theorem outcome_mapM (f : β → Action I ε α) (xs : List β) :
    outcome reply (xs.mapM f) = xs.mapM fun x => outcome reply (f x) := by
  induction xs with
  | nil => rfl
  | cons x xs ih =>
    rw [List.mapM_cons, List.mapM_cons, outcome_bind]
    cases outcome reply (f x) with
    | error e => rfl
    | ok a =>
      dsimp only
      rw [outcome_bind, ih]
      cases xs.mapM fun x => outcome reply (f x) with
      | error e => rfl
      | ok rest => rfl

end Action

/-! ## Answers that depend on a state -/

/-- The reply and the next state of every operation. -/
abbrev Answering (I : Interface) (S : Type) := (op : I.Op) → S → I.Reply op × S

namespace Program
variable {I : Interface} {S α β : Type} (answer : Answering I S)

/-- What the program returns from a state, and the state it leaves. -/
def evaluate : Program I α → S → α × S
  | .ret a, s => (a, s)
  | .call op next, s => (next (answer op s).1).evaluate (answer op s).2

@[simp] theorem evaluate_pure (a : α) (s : S) : (pure a : Program I α).evaluate answer s = (a, s) :=
  rfl

theorem evaluate_bind (p : Program I α) (f : α → Program I β) (s : S) :
    (p >>= f).evaluate answer s = (f (p.evaluate answer s).1).evaluate answer (p.evaluate answer s).2 := by
  induction p generalizing s with
  | ret a => rfl
  | call op next ih => exact ih _ _

variable {answer}

/-- Where the answers are among what can happen, so is the evaluation; an invariant of the
answers may be used. -/
theorem exists_performs_evaluate_of {exec : Effects I S} {G : S → Prop}
    (hanswer : ∀ op s, G s → exec s op (answer op s).1 (answer op s).2 ∧ G (answer op s).2)
    (p : Program I α) {s : S} (hs : G s) :
    (∃ t, p.Performs exec s t (p.evaluate answer s).1 (p.evaluate answer s).2) ∧
      G (p.evaluate answer s).2 := by
  induction p generalizing s with
  | ret a => exact ⟨⟨[], rfl, rfl, rfl⟩, hs⟩
  | call op next ih =>
    obtain ⟨hexec, hnext⟩ := hanswer op s hs
    obtain ⟨⟨t, hperforms⟩, hG⟩ := ih (answer op s).1 hnext
    exact ⟨⟨_, _, _, t, hexec, rfl, hperforms⟩, hG⟩

theorem exists_performs_evaluate {exec : Effects I S}
    (hanswer : ∀ op s, exec s op (answer op s).1 (answer op s).2) (p : Program I α) (s : S) :
    ∃ t, p.Performs exec s t (p.evaluate answer s).1 (p.evaluate answer s).2 :=
  (exists_performs_evaluate_of (G := fun _ => True) (fun op s _ => ⟨hanswer op s, trivial⟩) p
    trivial).1

/-- What the operations of a program keep holds at the end of its evaluation. -/
theorem evaluate_invariant {K : I.Op → Prop} {Q : α → Prop} {R : S → S → Prop} {p : Program I α}
    (hp : p.Uses K Q) (hrefl : ∀ s, R s s) (htrans : ∀ {s₁ s₂ s₃}, R s₁ s₂ → R s₂ s₃ → R s₁ s₃)
    (hstep : ∀ op s, K op → R s (answer op s).2) (s : S) :
    R s (p.evaluate answer s).2 ∧ Q (p.evaluate answer s).1 := by
  induction p generalizing s with
  | ret a => exact ⟨hrefl s, hp⟩
  | call op next ih =>
    obtain ⟨hrest, hQ⟩ := ih _ (hp.2 _) (answer op s).2
    exact ⟨htrans (hstep op s hp.1) hrest, hQ⟩

end Program

namespace Action
variable {I : Interface} {S ε α β : Type} (answer : Answering I S)

/-- How the action leaves from a state, and the state it leaves. -/
def evaluate (x : Action I ε α) (s : S) : Except ε α × S := (ExceptT.run x).evaluate answer s

@[simp] theorem evaluate_pure (a : α) (s : S) :
    evaluate answer (pure a : Action I ε α) s = (.ok a, s) := rfl

@[simp] theorem evaluate_throw (e : ε) (s : S) :
    evaluate answer (throw e : Action I ε α) s = (.error e, s) := rfl

@[simp] theorem evaluate_call (op : I.Op) (s : S) :
    evaluate answer (call op : Action I ε (I.Reply op)) s =
      (.ok (answer op s).1, (answer op s).2) := rfl

theorem evaluate_bind (x : Action I ε α) (f : α → Action I ε β) (s : S) :
    evaluate answer (x >>= f) s = match evaluate answer x s with
      | (.ok a, s') => evaluate answer (f a) s'
      | (.error e, s') => (.error e, s') := by
  have hbind : ExceptT.run (x >>= f) = ExceptT.run x >>= ExceptT.bindCont f := rfl
  unfold evaluate
  rw [hbind, Program.evaluate_bind]
  rcases (ExceptT.run x).evaluate answer s with ⟨out, s'⟩
  cases out with
  | ok a => rfl
  | error e => rfl

variable {answer} {x : Action I ε α} {f : α → Action I ε β} {s s' : S} {a : α} {e : ε}

theorem evaluate_bind_ok (h : evaluate answer x s = (.ok a, s')) :
    evaluate answer (x >>= f) s = evaluate answer (f a) s' := by
  rw [evaluate_bind, h]

theorem evaluate_bind_error (h : evaluate answer x s = (.error e, s')) :
    evaluate answer (x >>= f) s = (.error e, s') := by
  rw [evaluate_bind, h]

theorem evaluate_exitingWith (body : Action I ε α) (after : Except ε α → Program I (Except ε β))
    (s : S) : evaluate answer (body.exitingWith after) s =
      (after (evaluate answer body s).1).evaluate answer (evaluate answer body s).2 :=
  Program.evaluate_bind answer body.run after s

end Action

end FileService.Interaction
