import Mathlib.Logic.Relation
import Mathlib.Order.Filter.AtTopBot.Basic

/-!
# Runs that go on

A run is a sequence of states; between one state and the next there is a step or
a pause. Nothing follows about its end from the steps alone: what can be done
again and again must be done again and again.
-/
namespace FileService.Interaction
open Filter

variable {S : Type} {step act : S → S → Prop} {run : ℕ → S} {P Q R : S → Prop}

/-- Every state follows from the one before it by a step, or is the same. -/
def Follows (step : S → S → Prop) (run : ℕ → S) : Prop :=
  ∀ n, step (run n) (run (n + 1)) ∨ run (n + 1) = run n

/-- What is possible again and again is done again and again. -/
def Fair (act : S → S → Prop) (run : ℕ → S) : Prop :=
  (∃ᶠ n in atTop, ∃ s, act (run n) s) → ∃ᶠ n in atTop, act (run n) (run (n + 1))

/-- Whenever the one holds, the other holds then or later. -/
def LeadsTo (run : ℕ → S) (P Q : S → Prop) : Prop :=
  ∀ n, P (run n) → ∃ m ≥ n, Q (run m)

/-! ## Stability -/

/-- What holds at first and survives every step holds throughout. -/
theorem Follows.always (h : Follows step run) (hfirst : P (run 0))
    (hstep : ∀ {s s'}, P s → step s s' → P s') (n : ℕ) : P (run n) := by
  induction n with
  | zero => exact hfirst
  | succ n ih =>
    rcases h n with hnext | hsame
    · exact hstep ih hnext
    · rw [hsame]
      exact ih

theorem Follows.reaches (h : Follows step run) (n : ℕ) :
    Relation.ReflTransGen step (run 0) (run n) := by
  induction n with
  | zero => exact .refl
  | succ n ih =>
    rcases h n with hnext | hsame
    · exact ih.tail hnext
    · rw [hsame]
      exact ih

/-! ## What leads to what -/

theorem leadsTo_of_imp (h : ∀ n, P (run n) → Q (run n)) : LeadsTo run P Q :=
  fun n hn => ⟨n, le_rfl, h n hn⟩

theorem LeadsTo.trans (hPQ : LeadsTo run P Q) (hQR : LeadsTo run Q R) : LeadsTo run P R := by
  intro n hn
  obtain ⟨m, hm, hQ⟩ := hPQ n hn
  obtain ⟨l, hl, hR⟩ := hQR m hQ
  exact ⟨l, hm.trans hl, hR⟩

/-- The rule of one fair step: it leads to the goal, the other steps lead there or change
nothing about it, and until then it is possible again and again. -/
theorem Fair.leadsTo (hfair : Fair act run) (hrun : Follows step run)
    (hkeep : ∀ n, P (run n) → step (run n) (run (n + 1)) → P (run (n + 1)) ∨ Q (run (n + 1)))
    (hact : ∀ n, P (run n) → act (run n) (run (n + 1)) → Q (run (n + 1)))
    (hable : LeadsTo run P fun s => Q s ∨ ∃ s', act s s') : LeadsTo run P Q := by
  intro n hn
  by_contra hnever
  push Not at hnever
  -- without the goal the condition stays, so the step is possible again and again
  have hstays : ∀ m ≥ n, P (run m) := by
    intro m hm
    induction m, hm using Nat.le_induction with
    | base => exact hn
    | succ m hm ih =>
      have hgoal := hnever (m + 1) (Nat.le_succ_of_le hm)
      rcases hrun m with hnext | hsame
      · exact (hkeep m ih hnext).resolve_right hgoal
      · rw [hsame]
        exact ih
  have hpossible : ∃ᶠ m in atTop, ∃ s, act (run m) s := by
    rw [frequently_atTop]
    intro m
    obtain ⟨l, hl, hQ | hable⟩ := hable (max n m) (hstays _ (le_max_left ..))
    · exact absurd hQ (hnever l ((le_max_left ..).trans hl))
    · exact ⟨l, (le_max_right ..).trans hl, hable⟩
  obtain ⟨m, hm, hdone⟩ := frequently_atTop.mp (hfair hpossible) n
  exact hnever (m + 1) (Nat.le_succ_of_le hm) (hact m (hstays m hm) hdone)

end FileService.Interaction
