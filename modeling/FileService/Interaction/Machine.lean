import FileService.Interaction.Program

/-!
# Machines that run programs

A machine gives every operation its effect on a shared state and chooses the
reply; several outcomes may be possible. It also has steps of its own between
two operations (a clock, a background thread). A run interleaves the programs
of several threads. It records the operations that were called, each with the
state it was called in, newest first.
-/

/-!
## Protocols of programs

A protocol says, phase by phase, which operations a program may call and which
phases a reply may lead to. A program follows a protocol when it has a next
phase for every reply that the machine can give. Following is proved along the
program text, by one rule for each way of composing programs.
-/
namespace FileService.Interaction

/-- The replies an operation can have, whatever the state of the machine is. -/
abbrev Contract (I : Interface) := (op : I.Op) → I.Reply op → Prop

abbrev Protocol (I : Interface) (Phase : Type) := Phase → (op : I.Op) → I.Reply op → Phase → Prop

namespace Program
variable {I : Interface} {Phase α β : Type}
variable {R : Contract I} {S : Protocol I Phase}

/-- From phase `φ` the program keeps to `S` and returns in a phase satisfying `Q`. -/
def Follows (R : Contract I) (S : Protocol I Phase) (Q : α → Phase → Prop) :
    Program I α → Phase → Prop
  | .ret a, φ => Q a φ
  | .call op next, φ => ∀ r, R op r → ∃ φ', S φ op r φ' ∧ (next r).Follows R S Q φ'

theorem Follows.mono {Q Q' : α → Phase → Prop} {p : Program I α} {φ : Phase}
    (h : p.Follows R S Q φ) (hQ : ∀ a φ, Q a φ → Q' a φ) : p.Follows R S Q' φ := by
  induction p generalizing φ with
  | ret a => exact hQ a φ h
  | call op next ih =>
    intro r hr
    obtain ⟨φ', hstep, hnext⟩ := h r hr
    exact ⟨φ', hstep, ih r hnext⟩

theorem Follows.bind {Q : α → Phase → Prop} {Q' : β → Phase → Prop} {p : Program I α}
    {f : α → Program I β} {φ : Phase} (h : p.Follows R S Q φ)
    (hf : ∀ a φ, Q a φ → (f a).Follows R S Q' φ) : (p >>= f).Follows R S Q' φ := by
  induction p generalizing φ with
  | ret a => exact hf a φ h
  | call op next ih =>
    intro r hr
    obtain ⟨φ', hstep, hnext⟩ := h r hr
    exact ⟨φ', hstep, ih r hnext⟩

theorem follows_perform {op : I.Op} {Q : I.Reply op → Phase → Prop} {φ : Phase}
    (h : ∀ r, R op r → ∃ φ', S φ op r φ' ∧ Q r φ') : (perform op).Follows R S Q φ := h

/-- Operations that leave the phase alone may be called anywhere. -/
theorem Uses.follows {K : I.Op → Prop} {U : α → Prop} {Q : α → Phase → Prop} {p : Program I α}
    {φ : Phase} (hp : p.Uses K U) (hK : ∀ op r, K op → S φ op r φ) (hQ : ∀ a, U a → Q a φ) :
    p.Follows R S Q φ := by
  induction p with
  | ret a => exact hQ a hp
  | call op next ih => exact fun r _ => ⟨φ, hK op r hp.1, ih r (hp.2 r)⟩

end Program

namespace Action
variable {I : Interface} {Phase ε α β : Type}
variable {R : Contract I} {S : Protocol I Phase}

/-- `Q` for the phases in which the action returns, `E` for those in which it exits. -/
def Follows (R : Contract I) (S : Protocol I Phase) (Q : α → Phase → Prop)
    (E : ε → Phase → Prop) (x : Action I ε α) (φ : Phase) : Prop :=
  (ExceptT.run x).Follows R S (fun out φ => match out with | .ok a => Q a φ | .error e => E e φ) φ

variable {Q : α → Phase → Prop} {Q' : β → Phase → Prop} {E : ε → Phase → Prop}

theorem Follows.mono {Q₂ : α → Phase → Prop} {E₂ : ε → Phase → Prop} {x : Action I ε α}
    {φ : Phase} (h : Follows R S Q E x φ) (hQ : ∀ a φ, Q a φ → Q₂ a φ)
    (hE : ∀ e φ, E e φ → E₂ e φ) : Follows R S Q₂ E₂ x φ :=
  Program.Follows.mono h fun out φ h => by
    cases out with
    | ok a => exact hQ a φ h
    | error e => exact hE e φ h

theorem Follows.bind {x : Action I ε α} {f : α → Action I ε β} {φ : Phase}
    (h : Follows R S Q E x φ) (hf : ∀ a φ, Q a φ → Follows R S Q' E (f a) φ) :
    Follows R S Q' E (x >>= f) φ :=
  Program.Follows.bind h fun out φ h => by
    cases out with
    | ok a => exact hf a φ h
    | error e => exact h

theorem follows_throw {e : ε} {φ : Phase} (h : E e φ) :
    Follows R S Q E (throw e : Action I ε α) φ := h

theorem follows_lift {p : Program I α} {φ : Phase} (h : p.Follows R S Q φ) :
    Follows R S Q E (lift p : Action I ε α) φ :=
  Program.Follows.bind h fun _ _ h => h

theorem follows_call {op : I.Op} {Q : I.Reply op → Phase → Prop} {φ : Phase}
    (h : ∀ r, R op r → ∃ φ', S φ op r φ' ∧ Q r φ') :
    Follows R S Q E (call op : Action I ε (I.Reply op)) φ :=
  follows_lift (Program.follows_perform h)

theorem Follows.exitingWith {E' : ε → Phase → Prop} {x : Action I ε α}
    {after : Except ε α → Program I (Except ε β)} {φ : Phase} (h : Follows R S Q E x φ)
    (hQ : ∀ a φ, Q a φ → Follows R S Q' E' (ExceptT.mk (after (.ok a))) φ)
    (hE : ∀ e φ, E e φ → Follows R S Q' E' (ExceptT.mk (after (.error e))) φ) :
    Follows R S Q' E' (x.exitingWith after) φ :=
  Program.Follows.bind h fun out φ h => by
    cases out with
    | ok a => exact hQ a φ h
    | error e => exact hE e φ h

end Action

end FileService.Interaction

namespace FileService.Interaction

/-- The effects of the operations on states of type `S`. -/
structure Machine (I : Interface) (S : Type) where
  exec : S → (op : I.Op) → I.Reply op → S → Prop
  env : S → S → Prop

/-- One operation of a run: who called it, the reply, and the state before. -/
structure Event (I : Interface) (ι S : Type) where
  thread : ι
  op : I.Op
  reply : I.Reply op
  before : S

abbrev History (I : Interface) (ι S : Type) := List (Event I ι S)

namespace Machine
variable {I : Interface} {ι S : Type} {result : ι → Type} (M : Machine I S)

/-- Programs of many threads over one state. -/
structure Config (I : Interface) (ι S : Type) (result : ι → Type) where
  threads : (i : ι) → Program I (result i)
  state : S

/-- The configurations that some interleaving of the threads reaches from `c₀`. -/
inductive Reaches [DecidableEq ι] (c₀ : Config I ι S result) :
    History I ι S → Config I ι S result → Prop
  | init : Reaches c₀ [] c₀
  | env {h : History I ι S} {c : Config I ι S result} {s' : S} :
      Reaches c₀ h c → M.env c.state s' → Reaches c₀ h { c with state := s' }
  | call {h : History I ι S} {c : Config I ι S result} {i : ι} {op : I.Op}
      {next : I.Reply op → Program I (result i)} {r : I.Reply op} {s' : S} :
      Reaches c₀ h c → c.threads i = .call op next → M.exec c.state op r s' →
      Reaches c₀ (⟨i, op, r, c.state⟩ :: h)
        { threads := Function.update c.threads i (next r), state := s' }

/-- A run of one program from `s` to its end, with its history. -/
def Runs {α : Type} (p : Program I α) (s : S) (a : α) (h : History I Unit S) (s' : S) : Prop :=
  M.Reaches (⟨fun _ => p, s⟩ : Config I Unit S fun _ => α) h ⟨fun _ => .ret a, s'⟩

/-- The replies a machine gives keep to a contract. -/
def Honours (R : Contract I) : Prop := ∀ s op r s', M.exec s op r s' → R op r

variable {M} {Phase : ι → Type} [DecidableEq ι]

/-- What one step of any thread keeps, each thread being in a phase of its own protocol.
The histories are restricted to those satisfying `C`. -/
structure Preserves (M : Machine I S) (P : (i : ι) → Protocol I (Phase i))
    (C : History I ι S → Prop) (Inv : ((i : ι) → Phase i) → History I ι S → S → Prop) : Prop where
  step : ∀ {φ h s} (i : ι) {op r s' φ'}, Inv φ h s → M.exec s op r s' → P i (φ i) op r φ' →
    C (⟨i, op, r, s⟩ :: h) → Inv (Function.update φ i φ') (⟨i, op, r, s⟩ :: h) s'
  env : ∀ {φ h s s'}, Inv φ h s → M.env s s' → Inv φ h s'

/-- What every step keeps holds in whatever is reached, and every thread is where its
protocol allows it to be. -/
theorem Reaches.follows {R : Contract I} {P : (i : ι) → Protocol I (Phase i)}
    {C : History I ι S → Prop} {Inv : ((i : ι) → Phase i) → History I ι S → S → Prop}
    {Q : (i : ι) → result i → Phase i → Prop} {c₀ c : Config I ι S result}
    {φ₀ : (i : ι) → Phase i} {h : History I ι S} (hrun : M.Reaches c₀ h c) (hM : M.Honours R)
    (hkeep : Preserves M P C Inv) (hC : ∀ {e h}, C (e :: h) → C h)
    (hp : ∀ i, (c₀.threads i).Follows R (P i) (Q i) (φ₀ i)) (hinv : Inv φ₀ [] c₀.state)
    (hcond : C h) :
    ∃ φ, (∀ i, (c.threads i).Follows R (P i) (Q i) (φ i)) ∧ Inv φ h c.state := by
  induction hrun with
  | init => exact ⟨φ₀, hp, hinv⟩
  | env _ hstep ih =>
    obtain ⟨φ, hfollows, hinv⟩ := ih hcond
    exact ⟨φ, hfollows, hkeep.env hinv hstep⟩
  | @call h c i op next r s' _ hnext hexec ih =>
    obtain ⟨φ, hfollows, hinv⟩ := ih (hC hcond)
    have hi := hfollows i
    rw [hnext] at hi
    obtain ⟨φ', hstep, hrest⟩ := hi r (hM _ _ _ _ hexec)
    refine ⟨Function.update φ i φ', fun j => ?_, hkeep.step i hinv hexec hstep hcond⟩
    by_cases hj : j = i
    · subst hj
      simpa using hrest
    · simpa [Function.update_of_ne hj] using hfollows j

/-- The same for a whole run of one program. -/
theorem Runs.follows {α φT : Type} {R : Contract I} {P : Protocol I φT}
    {C : History I Unit S → Prop} {Inv : φT → History I Unit S → S → Prop}
    {Q : α → φT → Prop} {p : Program I α} {φ₀ : φT} {h : History I Unit S} {s s' : S} {a : α}
    (hrun : M.Runs p s a h s') (hM : M.Honours R)
    (hkeep : Preserves M (fun _ : Unit => P) C fun φ : Unit → φT => Inv (φ ()))
    (hC : ∀ {e h}, C (e :: h) → C h) (hp : p.Follows R P Q φ₀) (hinv : Inv φ₀ [] s)
    (hcond : C h) : ∃ φ, Q a φ ∧ Inv φ h s' := by
  have hstart : ∀ _ : Unit, p.Follows R P Q φ₀ := fun _ => hp
  obtain ⟨φ, hfollows, hlast⟩ := Reaches.follows hrun hM hkeep hC hstart hinv hcond
  exact ⟨φ (), hfollows (), hlast⟩

section Refinement
variable {T : Type} {N : Machine I T} {C : I.Op → Prop} {R : S → T → Prop}

/-- `N` follows every step of `M`, where the operations called satisfy `C`. -/
structure Refines (M : Machine I S) (N : Machine I T) (C : I.Op → Prop) (R : S → T → Prop) :
    Prop where
  exec : ∀ {s t op r s'}, C op → R s t → M.exec s op r s' → ∃ t', N.exec t op r t' ∧ R s' t'
  env : ∀ {s t s'}, R s t → M.env s s' → ∃ t', N.env t t' ∧ R s' t'

/-- The operation and the reply, without the state. -/
def Event.label (e : Event I ι S) : ι × (op : I.Op) × I.Reply op := (e.thread, ⟨e.op, e.reply⟩)

/-- Every run of `M` is one of `N`: the same threads make the same calls with the same replies. -/
theorem Refines.reaches {c₀ c : Config I ι S result} {h : History I ι S} {t₀ : T}
    (href : Refines M N C R) (hrun : M.Reaches c₀ h c) (hC : ∀ e ∈ h, C e.op)
    (hR : R c₀.state t₀) :
    ∃ h' t, N.Reaches ⟨c₀.threads, t₀⟩ h' ⟨c.threads, t⟩ ∧ R c.state t ∧
      h'.map Event.label = h.map Event.label := by
  induction hrun with
  | init => exact ⟨[], t₀, .init, hR, rfl⟩
  | env _ hstep ih =>
    obtain ⟨h', t, hreaches, ht, hlabels⟩ := ih hC
    obtain ⟨t', hstep', ht'⟩ := href.env ht hstep
    exact ⟨h', t', hreaches.env hstep', ht', hlabels⟩
  | call _ hnext hexec ih =>
    obtain ⟨h', t, hreaches, ht, hlabels⟩ := ih fun e he => hC e (List.mem_cons_of_mem _ he)
    obtain ⟨t', hexec', ht'⟩ := href.exec (hC _ List.mem_cons_self) ht hexec
    refine ⟨_, t', hreaches.call hnext hexec', ht', ?_⟩
    rw [List.map_cons, List.map_cons, hlabels]
    rfl

end Refinement

section Replay

/-- One move of a schedule: a thread calls its next operation, or the machine moves by itself. -/
inductive Move (ι Choice : Type) where
  | call (i : ι) (choice : Choice)
  | env (choice : Choice)

/-- Outcomes that can be computed from a choice. -/
structure Driver (M : Machine I S) (Choice : Type) where
  exec : Choice → S → (op : I.Op) → Option (I.Reply op × S)
  env : Choice → S → Option S
  exec_sound : ∀ {choice s op r s'}, exec choice s op = some (r, s') → M.exec s op r s'
  env_sound : ∀ {choice s s'}, env choice s = some s' → M.env s s'

variable {Choice : Type} (D : Driver M Choice)

/-- Make one move, if it is possible. -/
def Driver.move (x : History I ι S × Config I ι S result) :
    Move ι Choice → History I ι S × Config I ι S result
  | .env choice =>
    match D.env choice x.2.state with
    | some s' => (x.1, { x.2 with state := s' })
    | none => x
  | .call i choice =>
    match x.2.threads i with
    | .ret _ => x
    | .call op next =>
      match D.exec choice x.2.state op with
      | some (r, s') => (⟨i, op, r, x.2.state⟩ :: x.1,
          { threads := Function.update x.2.threads i (next r), state := s' })
      | none => x

/-- Carry out a schedule. -/
def Driver.replay (c : Config I ι S result) (schedule : List (Move ι Choice)) :
    History I ι S × Config I ι S result :=
  schedule.foldl D.move ([], c)

theorem Driver.reaches_move {c₀ : Config I ι S result} {x : History I ι S × Config I ι S result}
    (h : M.Reaches c₀ x.1 x.2) (m : Move ι Choice) :
    M.Reaches c₀ (D.move x m).1 (D.move x m).2 := by
  cases m with
  | env choice =>
    simp only [Driver.move]
    split
    · rename_i s' hs
      exact .env h (D.env_sound hs)
    · exact h
  | call i choice =>
    simp only [Driver.move]
    split
    · exact h
    · rename_i op next hnext
      split
      · rename_i r s' hs
        exact .call h hnext (D.exec_sound hs)
      · exact h

/-- Whatever a schedule leads to is reached by a run. -/
theorem Driver.reaches_replay (c : Config I ι S result) (schedule : List (Move ι Choice)) :
    M.Reaches c (D.replay c schedule).1 (D.replay c schedule).2 := by
  suffices h : ∀ x : History I ι S × Config I ι S result, M.Reaches c x.1 x.2 →
      M.Reaches c (schedule.foldl D.move x).1 (schedule.foldl D.move x).2 from
    h ([], c) .init
  induction schedule with
  | nil => exact fun x hx => hx
  | cons m schedule ih => exact fun x hx => ih (D.move x m) (D.reaches_move hx m)

/-- The value of a program that has ended. -/
def ended? {α : Type} : Program I α → Option α
  | .ret a => some a
  | .call _ _ => none

/-- A schedule that brings a program to its end gives a run. -/
theorem Driver.runs_replay {α : Type} (D : Driver M Choice) (p : Program I α) (s : S)
    (schedule : List (Move Unit Choice)) (test : α → Bool)
    (h : (ended? ((D.replay (⟨fun _ => p, s⟩ : Config I Unit S fun _ => α) schedule).2.threads
      ())).any test = true) :
    ∃ a, test a = true ∧ M.Runs p s a (D.replay ⟨fun _ => p, s⟩ schedule).1
      (D.replay ⟨fun _ => p, s⟩ schedule).2.state := by
  have hreaches := D.reaches_replay (⟨fun _ => p, s⟩ : Config I Unit S fun _ => α) schedule
  generalize D.replay (⟨fun _ => p, s⟩ : Config I Unit S fun _ => α) schedule = x at h hreaches
  obtain ⟨history, threads, state⟩ := x
  cases hend : threads () with
  | call op next => simp [hend, ended?] at h
  | ret a =>
    refine ⟨a, by simpa [hend, ended?] using h, ?_⟩
    have hthreads : threads = fun _ => .ret a := by
      funext i
      exact hend
    rw [hthreads] at hreaches
    exact hreaches

end Replay

end Machine

/-! ## Runs whose calls meet a condition

The condition is on the configuration before the call: on what every thread is
about to do there, and on the state. Such runs are runs of the machine, and what
every call that meets the condition keeps holds in all they reach.
-/

namespace Machine
variable {I : Interface} {ι S : Type} {result : ι → Type} {M : Machine I S}

/-- The configurations reached by runs in which every call satisfies `K`. -/
inductive ReachesWhere (M : Machine I S) [DecidableEq ι]
    (K : Config I ι S result → ι → I.Op → Prop) (c₀ : Config I ι S result) :
    Config I ι S result → Prop
  | init : ReachesWhere M K c₀ c₀
  | env {c : Config I ι S result} {s' : S} :
      ReachesWhere M K c₀ c → M.env c.state s' → ReachesWhere M K c₀ { c with state := s' }
  | call {c : Config I ι S result} {i : ι} {op : I.Op}
      {next : I.Reply op → Program I (result i)} {r : I.Reply op} {s' : S} :
      ReachesWhere M K c₀ c → c.threads i = .call op next → M.exec c.state op r s' → K c i op →
      ReachesWhere M K c₀ { threads := Function.update c.threads i (next r), state := s' }

variable [DecidableEq ι] {K : Config I ι S result → ι → I.Op → Prop}
variable {c₀ c : Config I ι S result}

theorem ReachesWhere.reaches (h : M.ReachesWhere K c₀ c) : ∃ t, M.Reaches c₀ t c := by
  induction h with
  | init => exact ⟨[], .init⟩
  | env _ hstep ih =>
    obtain ⟨t, ht⟩ := ih
    exact ⟨t, ht.env hstep⟩
  | call _ hnext hexec _ ih =>
    obtain ⟨t, ht⟩ := ih
    exact ⟨_, ht.call hnext hexec⟩

/-- An invariant of the calls that satisfy `K` and of the machine's own steps. -/
theorem ReachesWhere.invariant {Inv : Config I ι S result → Prop} (h : M.ReachesWhere K c₀ c)
    (hinit : Inv c₀)
    (henv : ∀ {c : Config I ι S result} {s' : S}, Inv c → M.env c.state s' →
      Inv { c with state := s' })
    (hcall : ∀ {c : Config I ι S result} {i : ι} {op : I.Op}
      {next : I.Reply op → Program I (result i)} {r : I.Reply op} {s' : S}, Inv c →
      c.threads i = .call op next → M.exec c.state op r s' → K c i op →
      Inv { threads := Function.update c.threads i (next r), state := s' }) : Inv c := by
  induction h with
  | init => exact hinit
  | env _ hstep ih => exact henv ih hstep
  | call _ hnext hexec hK ih => exact hcall ih hnext hexec hK

end Machine

end FileService.Interaction
