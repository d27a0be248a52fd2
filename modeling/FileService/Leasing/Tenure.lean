import Mathlib.Tactic.Common

/-!
# Rights with a deadline

A keeper hands out rights to keys. A right has a holder and a deadline; when the
deadline is due at a reading of the clock, others may take the key over. What a
keeper promises the holder follows from one thing only: at which readings the
deadline that it writes down is due.
-/
namespace FileService.Leasing

/-- What hands out rights, with the four laws that its calls obey. -/
structure Keeper (State Call Key Owner : Type) where
  start : State
  step : Int → State → Call → State
  /-- The holder of a key and the deadline written down. -/
  held : State → Key → Option (Owner × Int)
  /-- What is written down for a right of that length, given at this reading. -/
  deadline : Int → Int → Int
  /-- The deadline is over at this reading. -/
  Due : Int → Int → Prop
  /-- The call gives the key to the owner for that long. -/
  Grants : Int → State → Call → Key → Owner → Int → Prop
  /-- The call takes the key away from the owner. -/
  Takes : Int → State → Call → Key → Owner → Prop
  /-- The call is the owner's own: it gives the key up or changes the deadline. -/
  Disposes : Call → Key → Owner → Prop
  granted : ∀ {t s c k o d}, Grants t s c k o d → held (step t s c) k = some (o, deadline t d)
  kept : ∀ {t s c k o e}, held s k = some (o, e) → ¬Due t e → ¬Disposes c k o →
    held (step t s c) k = some (o, e)
  taken : ∀ {t s c k o e}, held s k = some (o, e) → Takes t s c k o → Due t e
  grantable : ∀ t d, ∃ k o c, Grants t start c k o d
  takeable : ∀ {t s k o e}, held s k = some (o, e) → Due t e → ∃ c, Takes t s c k o

namespace Keeper
variable {State Call Key Owner : Type} (K : Keeper State Call Key Owner)

/-- The state after calls, each at its reading of the clock. -/
def run (s : State) (calls : List (Int × Call)) : State :=
  calls.foldl (fun s call => K.step call.1 s call.2) s

@[simp] theorem run_nil (s : State) : K.run s [] = s := rfl

@[simp] theorem run_cons (s : State) (call : Int × Call) (calls : List (Int × Call)) :
    K.run s (call :: calls) = K.run (K.step call.1 s call.2) calls := rfl

theorem run_append (s : State) (past calls : List (Int × Call)) :
    K.run s (past ++ calls) = K.run (K.run s past) calls := List.foldl_append

/-- In every run, what is given at this reading for that long is not taken away before the
end, unless its holder disposes of it. -/
def Honours (t d e : Int) : Prop :=
  ∀ past grant k o between t' c, K.Grants t (K.run K.start past) grant k o d →
    (∀ call ∈ between, call.1 < e ∧ ¬K.Disposes call.2 k o) → t' < e →
      ¬K.Takes t' (K.run K.start (past ++ (t, grant) :: between)) c k o

variable {K} {s : State} {k : Key} {o : Owner} {t d e : Int}

/-- A right lasts through calls at readings at which it is not due. -/
theorem held_run {calls : List (Int × Call)} (h : K.held s k = some (o, e))
    (hcalls : ∀ call ∈ calls, ¬K.Due call.1 e ∧ ¬K.Disposes call.2 k o) :
    K.held (K.run s calls) k = some (o, e) := by
  induction calls generalizing s with
  | nil => exact h
  | cons call calls ih =>
    obtain ⟨hdue, hown⟩ := hcalls call (by simp)
    apply ih (K.kept h hdue hown)
    intro call' hmem
    exact hcalls call' (by simp [hmem])

/-- A keeper honours its rights for as long as their deadlines are not due. -/
theorem honours_iff : K.Honours t d e ↔ ∀ t' < e, ¬K.Due t' (K.deadline t d) := by
  constructor
  · intro h t' hbefore hdue
    obtain ⟨k, o, grant, hgrant⟩ := K.grantable t d
    obtain ⟨c, htakes⟩ := K.takeable (K.granted hgrant) hdue
    exact h [] grant k o [] t' c hgrant (by simp) hbefore htakes
  · intro h past grant k o between t' c hgrant hbetween hbefore htakes
    have hheld := K.granted hgrant
    have hlasts : K.held (K.run K.start (past ++ (t, grant) :: between)) k =
        some (o, K.deadline t d) := by
      rw [run_append, run_cons]
      apply held_run hheld
      intro call hcall
      exact ⟨h _ (hbetween call hcall).1, (hbetween call hcall).2⟩
    exact h t' hbefore (K.taken hlasts htakes)

end Keeper

end FileService.Leasing
