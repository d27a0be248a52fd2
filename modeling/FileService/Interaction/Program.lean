import Mathlib.Tactic

/-!
# Programs that call operations

A program is the tree of the operations it calls and of what it does with each
reply. The replies are left open: they are chosen by the machine that runs the
program. Failing computations are programs that return an exit value.
-/
namespace FileService.Interaction

/-- The operations a program may call, with the type of the reply to each. -/
structure Interface where
  Op : Type
  Reply : Op → Type

inductive Program (I : Interface) (α : Type) : Type where
  | ret (a : α)
  | call (op : I.Op) (next : I.Reply op → Program I α)

namespace Program
variable {I : Interface} {α β γ : Type}

protected def bind : Program I α → (α → Program I β) → Program I β
  | .ret a, f => f a
  | .call op next, f => .call op (fun r => (next r).bind f)

instance : Monad (Program I) where
  pure := .ret
  bind := Program.bind

/-- Call one operation and return its reply. -/
def perform (op : I.Op) : Program I (I.Reply op) := .call op .ret

@[simp] theorem bind_ret (a : α) (f : α → Program I β) : ((.ret a : Program I α) >>= f) = f a := rfl

@[simp] theorem bind_call (op : I.Op) (next : I.Reply op → Program I α) (f : α → Program I β) :
    (Program.call op next >>= f) = .call op (fun r => next r >>= f) := rfl

theorem bind_pure' (p : Program I α) : (p >>= fun a => .ret a) = p := by
  induction p with
  | ret a => rfl
  | call op next ih => simp [ih]

theorem bind_assoc' (p : Program I α) (f : α → Program I β) (g : β → Program I γ) :
    (p >>= f >>= g) = (p >>= fun a => f a >>= g) := by
  induction p with
  | ret a => rfl
  | call op next ih => simp [ih]

instance : LawfulMonad (Program I) :=
  LawfulMonad.mk' (Program I) (fun p => bind_pure' p) (fun _ _ => rfl) bind_assoc'

/-- Every operation the program may call satisfies `K`, and every value it may return
satisfies `Q`, whatever the replies are. -/
def Uses (K : I.Op → Prop) (Q : α → Prop) : Program I α → Prop
  | .ret a => Q a
  | .call op next => K op ∧ ∀ r, (next r).Uses K Q

theorem uses_bind {K : I.Op → Prop} {Q : α → Prop} {Q' : β → Prop} {p : Program I α}
    {f : α → Program I β} (hp : p.Uses K Q) (hf : ∀ a, Q a → (f a).Uses K Q') :
    (p >>= f).Uses K Q' := by
  induction p with
  | ret a => exact hf a hp
  | call op next ih => exact ⟨hp.1, fun r => ih r (hp.2 r)⟩

theorem uses_mono {K K' : I.Op → Prop} {Q : α → Prop} {p : Program I α} (h : ∀ op, K op → K' op)
    (hp : p.Uses K Q) : p.Uses K' Q := by
  induction p with
  | ret a => exact hp
  | call op next ih => exact ⟨h op hp.1, fun r => ih r (hp.2 r)⟩

end Program

/-- A program that leaves either with a value or with an exit of type `ε`. -/
abbrev Action (I : Interface) (ε α : Type) := ExceptT ε (Program I) α

namespace Action
variable {I : Interface} {ε α β : Type}

/-- A program without an exit of its own, as an action. -/
def lift (p : Program I α) : Action I ε α := ExceptT.lift p

def call (op : I.Op) : Action I ε (I.Reply op) := lift (Program.perform op)

/-- Run `body`, then go on from the way it left: with a value or with an exit. -/
def exitingWith (body : Action I ε α) (after : Except ε α → Program I (Except ε β)) :
    Action I ε β :=
  ExceptT.mk (body.run >>= after)

end Action

end FileService.Interaction
