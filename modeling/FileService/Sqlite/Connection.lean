import FileService.Interaction.Execution

/-!
# A connection to an SQL database

A connection holds the durable data and at most one open transaction with its
savepoints. A statement works on the data of the transaction, or commits on its
own when there is none. A failing statement rolls back itself, or the whole
transaction; a failing control command has no other effect than these two.
-/
namespace FileService.Sqlite
open FileService.Interaction

/-- The result code of a failed call; a statement may already fail to be prepared. -/
inductive Code where
  | unprepared
  | constraint
  | failed (errstr : String)
deriving DecidableEq, Repr

/-- `sqlite3_errstr` -/
def Code.text : Code → String
  | .unprepared => "SQL logic error"
  | .constraint => "constraint failed"
  | .failed errstr => errstr

/-- A database and its statements. A statement that violates a constraint, or that cannot be
prepared, fails with a code and without an effect. -/
structure Schema where
  Data : Type
  Statement : Type
  Answer : Statement → Type
  run : (s : Statement) → Data → Except Code (Answer s × Data)

/-- What a statement-level operation may do: execute statements and read the clock. -/
inductive StatementCall (S : Schema) where
  | execute (s : S.Statement)
  | now

abbrev StatementCall.Reply {S : Schema} : StatementCall S → Type
  | .execute s => Except Code (S.Answer s)
  | .now => Int

abbrev statements (S : Schema) : Interface where
  Op := StatementCall S
  Reply := StatementCall.Reply

inductive Control where
  | begin
  | commit
  | rollback
  | savepoint (name : String)
  | release (name : String)
  | rollbackTo (name : String)
deriving DecidableEq

inductive Command (S : Schema) where
  | statement (call : StatementCall S)
  | control (k : Control)

abbrev Command.Reply {S : Schema} : Command S → Type
  | .statement call => call.Reply
  | .control _ => Except Code Unit

abbrev connection (S : Schema) : Interface where
  Op := Command S
  Reply := Command.Reply

/-- A statement-level operation, run on a connection. -/
def onConnection {S : Schema} {α : Type} (p : Program (statements S) α) :
    Program (connection S) α :=
  p.translate (J := connection S) .statement (fun _ r => r)

def execute {S : Schema} (s : S.Statement) : Program (statements S) (Except Code (S.Answer s)) :=
  Program.perform (I := statements S) (.execute s)

def now {S : Schema} : Program (statements S) Int := Program.perform (I := statements S) .now

def control {S : Schema} (k : Control) : Program (connection S) (Except Code Unit) :=
  Program.perform (I := connection S) (.control k)

/-! ## The state of a connection -/

/-- An open transaction; its savepoints are listed innermost first. -/
structure Transaction (D : Type) where
  current : D
  savepoints : List (String × D) := []
  bySavepoint : Bool := false

structure Connection (D : Type) where
  durable : D
  transaction : Option (Transaction D) := none

namespace Connection
variable {D : Type}

/-- The data that statements see. -/
def view (c : Connection D) : D :=
  match c.transaction with
  | some t => t.current
  | none => c.durable

def setView (c : Connection D) (x : D) : Connection D :=
  match c.transaction with
  | some t => { c with transaction := some { t with current := x } }
  | none => { c with durable := x }

/-- The transaction is gone, and its changes with it. -/
def rolledBack (c : Connection D) : Connection D := { c with transaction := none }

@[simp] theorem view_some (d : D) (t : Transaction D) : (⟨d, some t⟩ : Connection D).view = t.current :=
  rfl

@[simp] theorem view_none (d : D) : (⟨d, none⟩ : Connection D).view = d := rfl

@[simp] theorem setView_some (d x : D) (t : Transaction D) :
    (⟨d, some t⟩ : Connection D).setView x = ⟨d, some { t with current := x }⟩ := rfl

@[simp] theorem setView_none (d x : D) : (⟨d, none⟩ : Connection D).setView x = ⟨x, none⟩ := rfl

end Connection

/-- The savepoints from the innermost one of this name on. -/
def upTo {D : Type} (name : String) (savepoints : List (String × D)) : List (String × D) :=
  savepoints.dropWhile fun saved => saved.1 != name

/-- What a control command does when it succeeds; it cannot where there is nothing here. -/
def Control.effect {D : Type} : Control → Connection D → Option (Connection D)
  | .begin, ⟨d, none⟩ => some ⟨d, some { current := d }⟩
  | .begin, ⟨_, some _⟩ => none
  | .commit, ⟨_, some t⟩ => some ⟨t.current, none⟩
  | .commit, ⟨_, none⟩ => none
  | .rollback, ⟨d, some _⟩ => some ⟨d, none⟩
  | .rollback, ⟨_, none⟩ => none
  | .savepoint name, ⟨d, none⟩ =>
    some ⟨d, some { current := d, savepoints := [(name, d)], bySavepoint := true }⟩
  | .savepoint name, ⟨d, some t⟩ =>
    some ⟨d, some { t with savepoints := (name, t.current) :: t.savepoints }⟩
  | .release _, ⟨_, none⟩ => none
  | .release name, ⟨d, some t⟩ =>
    match upTo name t.savepoints with
    | [] => none
    | _ :: rest =>
      if rest.isEmpty && t.bySavepoint then some ⟨t.current, none⟩
      else some ⟨d, some { t with savepoints := rest }⟩
  | .rollbackTo _, ⟨_, none⟩ => none
  | .rollbackTo name, ⟨d, some t⟩ =>
    match upTo name t.savepoints with
    | [] => none
    | (_, saved) :: rest =>
      some ⟨d, some { t with current := saved, savepoints := (name, saved) :: rest }⟩

/-- The effect of a statement-level call on the data it sees. -/
inductive Applies (S : Schema) : Effects (statements S) S.Data
  | executed {x x' : S.Data} {s : S.Statement} {a : S.Answer s} (h : S.run s x = .ok (a, x')) :
      Applies S x (.execute s) (.ok a) x'
  | failed {x : S.Data} {s : S.Statement} (code : Code) :
      Applies S x (.execute s) (.error code) x
  | now {x : S.Data} {seconds : Int} : Applies S x .now seconds x

/-- The effect of a command on a connection. Only a `ROLLBACK` of an open transaction is
certain to succeed. -/
inductive Acts (S : Schema) : Effects (connection S) (Connection S.Data)
  | statement {c : Connection S.Data} {call : StatementCall S} {r : call.Reply} {x : S.Data}
      (h : Applies S c.view call r x) : Acts S c (.statement call) r (c.setView x)
  | statementAborts {c : Connection S.Data} {s : S.Statement} (code : Code)
      (h : c.transaction.isSome) :
      Acts S c (.statement (.execute s)) (.error code) c.rolledBack
  | control {c c' : Connection S.Data} {k : Control} (h : k.effect c = some c') :
      Acts S c (.control k) (.ok ()) c'
  | controlFails {c : Connection S.Data} {k : Control} (code : Code)
      (h : k = .rollback → c.transaction = none) : Acts S c (.control k) (.error code) c
  | controlAborts {c : Connection S.Data} {k : Control} (code : Code)
      (hk : k ≠ .rollback ∧ k ≠ .begin) (h : c.transaction.isSome) :
      Acts S c (.control k) (.error code) c.rolledBack

/-! ## Executions of statement-level operations -/

section Statements
variable {S : Schema} {α β : Type}

abbrev Events (S : Schema) := List (Performed (connection S) (Connection S.Data))

/-- The operation leads from `x` to `x'`; its statements fail one by one, if at all. -/
def RunsOn (S : Schema) (p : Program (statements S) α) (x : S.Data) (a : α) (x' : S.Data) : Prop :=
  ∃ t, p.Performs (Applies S) x t a x'

/-- No statement or savepoint command of the execution rolls the whole transaction back. -/
def KeepsTransaction (t : Events S) : Prop :=
  ∀ x ∈ t, x.op ≠ .control .commit → x.op ≠ .control .rollback →
    x.before.transaction.isSome → x.after.transaction.isSome

theorem KeepsTransaction.left {t₁ t₂ : Events S} (h : KeepsTransaction (t₁ ++ t₂)) :
    KeepsTransaction t₁ :=
  fun x hx => h x (List.mem_append_left _ hx)

theorem KeepsTransaction.right {t₁ t₂ : Events S} (h : KeepsTransaction (t₁ ++ t₂)) :
    KeepsTransaction t₂ :=
  fun x hx => h x (List.mem_append_right _ hx)

/-- Inside a transaction that is kept, an operation works on the data of the transaction. -/
theorem onConnection_performs {p : Program (statements S) α} {d : S.Data}
    {transaction : Transaction S.Data} {t : Events S} {a : α} {c : Connection S.Data}
    (h : (onConnection p).Performs (Acts S) ⟨d, some transaction⟩ t a c)
    (hkeep : KeepsTransaction t) :
    ∃ x, RunsOn S p transaction.current a x ∧ c = ⟨d, some { transaction with current := x }⟩ := by
  induction p generalizing transaction t with
  | ret b =>
    obtain ⟨rfl, rfl, rfl⟩ := h
    exact ⟨transaction.current, ⟨[], rfl, rfl, rfl⟩, rfl⟩
  | call op next ih =>
    obtain ⟨r, c₁, rest, hacts, rfl, hrest⟩ := h
    have hkept := hkeep _ List.mem_cons_self (by simp) (by simp) rfl
    have hrestKeep : KeepsTransaction rest := fun x hx => hkeep x (List.mem_cons_of_mem _ hx)
    cases hacts with
    | statementAborts => simp [Connection.rolledBack] at hkept
    | statement happlies =>
      rw [Connection.setView_some] at hrest
      obtain ⟨x, ⟨events, hruns⟩, hc⟩ := ih r hrest hrestKeep
      exact ⟨x, ⟨_, r, _, events, happlies, rfl, hruns⟩, hc⟩

theorem runsOn_bind {p : Program (statements S) α} {f : α → Program (statements S) β}
    {x x' : S.Data} {b : β} :
    RunsOn S (p >>= f) x b x' ↔ ∃ a x₁, RunsOn S p x a x₁ ∧ RunsOn S (f a) x₁ b x' := by
  constructor
  · rintro ⟨t, h⟩
    obtain ⟨t₁, a, x₁, t₂, rfl, hp, hf⟩ := Program.performs_bind.mp h
    exact ⟨a, x₁, ⟨t₁, hp⟩, t₂, hf⟩
  · rintro ⟨a, x₁, ⟨t₁, hp⟩, t₂, hf⟩
    exact ⟨t₁ ++ t₂, Program.performs_bind.mpr ⟨t₁, a, x₁, t₂, rfl, hp, hf⟩⟩

@[simp] theorem runsOn_pure {x x' : S.Data} {a b : α} :
    RunsOn S (pure a : Program (statements S) α) x b x' ↔ b = a ∧ x' = x := by
  constructor
  · rintro ⟨t, -, rfl, rfl⟩
    exact ⟨rfl, rfl⟩
  · rintro ⟨rfl, rfl⟩
    exact ⟨[], rfl, rfl, rfl⟩

theorem runsOn_execute {s : S.Statement} {x x' : S.Data} {answer : Except Code (S.Answer s)} :
    RunsOn S (execute s) x answer x' ↔ Applies S x (.execute s) answer x' := by
  constructor
  · rintro ⟨t, h⟩
    exact (Program.performs_perform.mp h).1
  · intro h
    exact ⟨_, Program.performs_perform.mpr ⟨h, rfl⟩⟩

/-- A statement that fails has no effect. -/
theorem applies_error {s : S.Statement} {x x' : S.Data} {code : Code}
    (h : Applies S x (.execute s) (.error code) x') : x' = x := by
  cases h
  rfl

theorem applies_ok {s : S.Statement} {x x' : S.Data} {a : S.Answer s}
    (h : Applies S x (.execute s) (.ok a) x') : S.run s x = .ok (a, x') := by
  cases h with
  | executed h => exact h

theorem runsOn_now {x x' : S.Data} {seconds : Int} : RunsOn S now x seconds x' ↔ x' = x := by
  constructor
  · rintro ⟨t, h⟩
    obtain ⟨happlies, -⟩ := Program.performs_perform.mp h
    cases happlies
    rfl
  · rintro rfl
    exact ⟨_, Program.performs_perform.mpr ⟨.now, rfl⟩⟩

/-- Where no transaction is open, every statement commits on its own. -/
theorem onConnection_autocommits {p : Program (statements S) α} {d : S.Data} {t : Events S} {a : α}
    {c : Connection S.Data} (h : (onConnection p).Performs (Acts S) ⟨d, none⟩ t a c) :
    ∃ x, RunsOn S p d a x ∧ c = ⟨x, none⟩ := by
  induction p generalizing d t with
  | ret b =>
    obtain ⟨rfl, rfl, rfl⟩ := h
    exact ⟨d, ⟨[], rfl, rfl, rfl⟩, rfl⟩
  | call op next ih =>
    obtain ⟨r, c₁, rest, hacts, rfl, hrest⟩ := h
    cases hacts with
    | statementAborts _ hopen => cases hopen
    | statement happlies =>
      obtain ⟨x, ⟨events, hruns⟩, hc⟩ := ih r hrest
      exact ⟨x, ⟨_, r, _, events, happlies, rfl, hruns⟩, hc⟩

/-- Statement-level operations make no control commands. -/
theorem onConnection_statements {p : Program (statements S) α} {c c' : Connection S.Data}
    {t : Events S} {a : α} (h : (onConnection p).Performs (Acts S) c t a c') :
    ∀ x ∈ t, ∃ call, x.op = .statement call := by
  induction p generalizing c t with
  | ret b =>
    obtain ⟨rfl, -, -⟩ := h
    simp
  | call op next ih =>
    obtain ⟨r, c₁, rest, -, rfl, hrest⟩ := h
    intro x hx
    rcases List.mem_cons.mp hx with rfl | hx
    · exact ⟨op, rfl⟩
    · exact ih r hrest x hx

/-- The operation returns an error as soon as one of its statements fails. -/
def FailsFast {ε : Type} : Program (statements S) (Except ε α) → Prop
  | .ret _ => True
  | .call (.execute _) next =>
    (∀ code, ∃ e, next (.error code) = .ret (.error e)) ∧ ∀ a, FailsFast (next (.ok a))
  | .call .now next => ∀ seconds, FailsFast (next seconds)

/-- An operation that fails fast either works inside the open transaction, or it has lost the
transaction and returns an error. -/
theorem onConnection_failsFast {ε : Type} {p : Program (statements S) (Except ε α)} {d : S.Data}
    {transaction : Transaction S.Data} {t : Events S} {result : Except ε α}
    {c : Connection S.Data} (hp : FailsFast p)
    (h : (onConnection p).Performs (Acts S) ⟨d, some transaction⟩ t result c) :
    (∃ x, RunsOn S p transaction.current result x ∧
      c = ⟨d, some { transaction with current := x }⟩) ∨
    ((∃ e, result = .error e) ∧ c = ⟨d, none⟩) := by
  induction p generalizing transaction t with
  | ret b =>
    obtain ⟨rfl, rfl, rfl⟩ := h
    left
    exact ⟨transaction.current, ⟨[], rfl, rfl, rfl⟩, rfl⟩
  | call op next ih =>
    obtain ⟨r, c₁, rest, hacts, rfl, hrest⟩ := h
    cases hacts with
    | statementAborts code =>
      obtain ⟨e, he⟩ := hp.1 code
      have hended : (onConnection (next (.error code))).Performs (Acts S) ⟨d, none⟩ rest result c :=
        hrest
      rw [he] at hended
      obtain ⟨-, rfl, rfl⟩ := hended
      right
      exact ⟨⟨e, rfl⟩, rfl⟩
    | statement happlies =>
      rw [Connection.setView_some] at hrest
      have hnext : FailsFast (next r) := by
        cases happlies with
        | executed => exact hp.2 _
        | failed code =>
          obtain ⟨e, he⟩ := hp.1 code
          rw [he]
          trivial
        | now => exact hp _
      rcases ih r hnext hrest with ⟨x, ⟨events, hruns⟩, hc⟩ | hlost
      · left
        exact ⟨x, ⟨_, r, _, events, happlies, rfl, hruns⟩, hc⟩
      · right
        exact hlost

end Statements

end FileService.Sqlite
