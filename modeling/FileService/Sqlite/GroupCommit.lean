import FileService.Common.Result
import FileService.Sqlite.Connection

/-!
# Executing a batch of write operations

All operations of a batch share one transaction, each inside a savepoint of its
own. The results of the savepoint commands are dropped, and a failed `COMMIT`
turns the results of all operations into errors.
-/
namespace FileService.Sqlite
open FileService.Common FileService.Interaction

variable {S : Schema} {α : Type}

/-- A statement-level write operation, with the result it leaves in its slot. -/
abbrev WriteOp (S : Schema) (α : Type) := Program (statements S) (Result α)

def savepointName (i : Nat) : String := "fss_gc_op_" ++ toString i

def poison (ops : List (WriteOp S α)) (message : String) : List (Result α) :=
  ops.map fun _ => .error (err .internal message)

/-- What ends the savepoint of an operation. -/
def endSavepoint (name : String) : Result α → Program (connection S) Unit
  | .ok _ => control (.release name) >>= fun _ => pure ()
  | .error _ => control (.rollbackTo name) >>= fun _ => control (.release name) >>= fun _ => pure ()

def executeEach : Nat → List (WriteOp S α) → Program (connection S) (List (Result α))
  | _, [] => pure []
  | i, op :: ops =>
    control (.savepoint (savepointName i)) >>= fun _ =>
    onConnection op >>= fun result =>
    endSavepoint (savepointName i) result >>= fun _ =>
    executeEach (i + 1) ops >>= fun results => pure (result :: results)

/-- `ExecuteBatch`; `failCommit` is the decision of the injected commit fault. -/
def executeBatch (failCommit : Bool) (ops : List (WriteOp S α)) :
    Program (connection S) (List (Result α)) :=
  control .begin >>= fun began => match began with
  | .error code => pure (poison ops ("组提交：开启事务失败：" ++ code.text))
  | .ok () =>
    executeEach 0 ops >>= fun results =>
    if failCommit then
      control .rollback >>= fun _ => pure (poison ops "组提交：COMMIT 失败（故障注入）")
    else
      control .commit >>= fun committed => match committed with
      | .error code =>
        control .rollback >>= fun _ =>
          pure (poison ops ("组提交：整批 COMMIT 失败：" ++ code.text))
      | .ok () => pure results

/-! ## What a truthful batch is -/

/-- `x'` is what the operations reported ok make of `x` one after the other, the operations
reported as failed having no effect. -/
inductive Truthful : List (WriteOp S α) → List (Result α) → S.Data → S.Data → Prop
  | nil {x : S.Data} : Truthful [] [] x x
  | applied {op : WriteOp S α} {ops : List (WriteOp S α)} {a : α} {results : List (Result α)}
      {x x₁ x' : S.Data} (hop : RunsOn S op x (.ok a) x₁) (hrest : Truthful ops results x₁ x') :
      Truthful (op :: ops) (.ok a :: results) x x'
  | failed {op : WriteOp S α} {ops : List (WriteOp S α)} {e : Error} {results : List (Result α)}
      {x x' : S.Data} (hrest : Truthful ops results x x') :
      Truthful (op :: ops) (.error e :: results) x x'

theorem truthful_poison (ops : List (WriteOp S α)) (message : String) (x : S.Data) :
    Truthful ops (poison ops message) x x := by
  induction ops with
  | nil => exact .nil
  | cons op ops ih => exact .failed ih

/-- The savepoint commands that isolate an operation take effect, and no failure before the
end of the batch takes the transaction with it. -/
structure Isolated (t : Events S) : Prop where
  keeps : KeepsTransaction t
  saves : ∀ x ∈ t, ∀ name, x.op = .control (.savepoint name) →
    Control.effect (.savepoint name) x.before = some x.after
  restores : ∀ x ∈ t, ∀ name, x.op = .control (.rollbackTo name) →
    Control.effect (.rollbackTo name) x.before = some x.after

theorem Isolated.left {t₁ t₂ : Events S} (h : Isolated (t₁ ++ t₂)) : Isolated t₁ where
  keeps := h.keeps.left
  saves x hx := h.saves x (List.mem_append_left _ hx)
  restores x hx := h.restores x (List.mem_append_left _ hx)

theorem Isolated.right {t₁ t₂ : Events S} (h : Isolated (t₁ ++ t₂)) : Isolated t₂ where
  keeps := h.keeps.right
  saves x hx := h.saves x (List.mem_append_right _ hx)
  restores x hx := h.restores x (List.mem_append_right _ hx)

theorem Isolated.tail {event : Performed _ _} {t : Events S} (h : Isolated (event :: t)) :
    Isolated t := by
  have happend : Isolated ([event] ++ t) := h
  exact happend.right

/-! ## The savepoint of one operation -/

section Savepoint
variable {d : S.Data} {t : Events S} {c : Connection S.Data} {name : String}

/-- A connection in the transaction of a batch. -/
def InBatch (d x : S.Data) (c : Connection S.Data) : Prop :=
  ∃ savepoints, c = ⟨d, some { current := x, savepoints }⟩

/-- A `RELEASE` inside a begun transaction does not touch the data. -/
theorem release_keeps {x : S.Data} {savepoints : List (String × S.Data)} {r : Except Code Unit}
    (h : (control (.release name)).Performs (Acts S) ⟨d, some { current := x, savepoints }⟩ t r c)
    (hkeep : KeepsTransaction t) : InBatch d x c := by
  obtain ⟨hacts, rfl⟩ := Program.performs_perform.mp h
  have hkept := hkeep _ List.mem_cons_self (by simp) (by simp) rfl
  cases hacts with
  | controlAborts => simp [Connection.rolledBack] at hkept
  | controlFails => exact ⟨savepoints, rfl⟩
  | control heffect =>
    simp only [Control.effect] at heffect
    split at heffect
    · cases heffect
    · simp only [Bool.and_false, Bool.false_eq_true, if_false, Option.some.injEq] at heffect
      exact ⟨_, heffect.symm⟩

/-- Releasing keeps what the operation did; rolling back restores what the savepoint saved. -/
theorem endSavepoint_isolates {x saved : S.Data} {savepoints : List (String × S.Data)}
    {result : Result α} {u : Unit}
    (h : (endSavepoint name result).Performs (Acts S)
      ⟨d, some { current := x, savepoints := (name, saved) :: savepoints }⟩ t u c)
    (hisolated : Isolated t) : InBatch d (if result.isOk then x else saved) c := by
  cases result with
  | ok a =>
    obtain ⟨before, r, c₁, after, rfl, hrelease, rfl, -, rfl⟩ := Program.performs_bind.mp h
    exact release_keeps hrelease hisolated.left.keeps
  | error e =>
    obtain ⟨r, c₁, rest, -, rfl, hrest⟩ := Program.performs_call_bind.mp h
    obtain ⟨before, r', c₂, after, rfl, hrelease, rfl, -, rfl⟩ := Program.performs_bind.mp hrest
    have hrestored := hisolated.restores _ List.mem_cons_self name rfl
    simp only [Control.effect, upTo, List.dropWhile_cons, bne_self_eq_false, Bool.false_eq_true,
      if_false, Option.some.injEq] at hrestored
    subst hrestored
    exact release_keeps hrelease hisolated.tail.left.keeps

/-- Inside the transaction of a batch, the operations do what their results say. -/
theorem executeEach_truthful {ops : List (WriteOp S α)} {i : Nat} {x : S.Data}
    {c₀ : Connection S.Data} {results : List (Result α)} (hc₀ : InBatch d x c₀)
    (h : (executeEach i ops).Performs (Acts S) c₀ t results c) (hisolated : Isolated t) :
    ∃ x', Truthful ops results x x' ∧ InBatch d x' c := by
  induction ops generalizing i x c₀ t results with
  | nil =>
    obtain ⟨rfl, rfl, rfl⟩ := h
    exact ⟨x, .nil, hc₀⟩
  | cons op ops ih =>
    obtain ⟨savepoints, rfl⟩ := hc₀
    obtain ⟨r, c₁, rest, -, rfl, hrest⟩ := Program.performs_call_bind.mp h
    have hsaved := hisolated.saves _ List.mem_cons_self _ rfl
    simp only [Control.effect, Option.some.injEq] at hsaved
    subst hsaved
    have hrestIsolated : Isolated rest := hisolated.tail
    obtain ⟨t₁, result, c₂, t₂, rfl, hop, hend⟩ := Program.performs_bind.mp hrest
    obtain ⟨x₁, hruns, rfl⟩ := onConnection_performs hop hrestIsolated.left.keeps
    obtain ⟨t₃, u, c₃, t₄, rfl, hended, hothers⟩ := Program.performs_bind.mp hend
    have hbatch := endSavepoint_isolates hended hrestIsolated.right.left
    obtain ⟨t₅, others, c₄, t₆, rfl, heach, rfl, rfl, rfl⟩ := Program.performs_bind.mp hothers
    obtain ⟨x', htruthful, hin⟩ := ih hbatch heach hrestIsolated.right.right.left
    cases result with
    | ok a => exact ⟨x', .applied hruns htruthful, hin⟩
    | error e => exact ⟨x', .failed htruthful, hin⟩

end Savepoint

/-! ## The batch -/

section Batch
variable {ops : List (WriteOp S α)} {failCommit : Bool} {c c' : Connection S.Data} {t : Events S}
variable {results : List (Result α)}

theorem rollback_durable {t : Events S} {r : Except Code Unit}
    (h : (control .rollback).Performs (Acts S) c t r c') : c'.durable = c.durable := by
  obtain ⟨hacts, rfl⟩ := Program.performs_perform.mp h
  cases hacts with
  | controlAborts _ hk => exact absurd rfl hk.1
  | controlFails => rfl
  | control heffect =>
    obtain ⟨d, transaction⟩ := c
    cases transaction with
    | none => cases heffect
    | some transaction =>
      simp only [Control.effect, Option.some.injEq] at heffect
      rw [← heffect]

/-- **A batch tells the truth**: where the savepoints isolate the operations, the database
becomes what exactly the operations reported ok make of it. -/
theorem executeBatch_truthful (h : (executeBatch failCommit ops).Performs (Acts S) c t results c')
    (hisolated : Isolated t) : Truthful ops results c.durable c'.durable := by
  obtain ⟨began, c₁, rest, hbegin, rfl, hrest⟩ := Program.performs_call_bind.mp h
  cases hbegin with
  | controlFails =>
    obtain ⟨rfl, rfl, rfl⟩ := hrest
    exact truthful_poison ops _ _
  | controlAborts _ hk => exact absurd rfl hk.2
  | control heffect =>
    obtain ⟨d, transaction⟩ := c
    cases transaction with
    | some transaction => cases heffect
    | none =>
      simp only [Control.effect, Option.some.injEq] at heffect
      subst heffect
      obtain ⟨t₁, each, c₂, t₂, rfl, heach, hcommit⟩ := Program.performs_bind.mp hrest
      have hrestIsolated : Isolated (t₁ ++ t₂) := hisolated.tail
      obtain ⟨x, htruthful, savepoints, rfl⟩ :=
        executeEach_truthful ⟨[], rfl⟩ heach hrestIsolated.left
      split at hcommit
      · obtain ⟨t₃, r, c₃, t₄, rfl, hrollback, rfl, rfl, rfl⟩ := Program.performs_bind.mp hcommit
        rw [rollback_durable hrollback]
        exact truthful_poison ops _ _
      · obtain ⟨committed, c₃, rest, hacts, rfl, hlast⟩ := Program.performs_call_bind.mp hcommit
        cases hacts with
        | control heffect =>
          simp only [Control.effect, Option.some.injEq] at heffect
          subst heffect
          obtain ⟨-, rfl, rfl⟩ := hlast
          exact htruthful
        | controlFails =>
          obtain ⟨t₃, r, c₄, t₄, rfl, hrollback, -, rfl, rfl⟩ := Program.performs_bind.mp hlast
          rw [rollback_durable hrollback]
          exact truthful_poison ops _ _
        | controlAborts =>
          obtain ⟨t₃, r, c₄, t₄, rfl, hrollback, -, rfl, rfl⟩ := Program.performs_bind.mp hlast
          rw [rollback_durable hrollback]
          exact truthful_poison ops _ _

end Batch

/-! ## A transaction lost in the middle of a batch -/

section Sample

/-- A table of unique keys. -/
def keyTable : Schema where
  Data := List Nat
  Statement := Nat
  Answer _ := Unit
  run key keys := if key ∈ keys then .error .constraint else .ok ((), key :: keys)

/-- Insert a key; the error of the statement is the result of the operation. -/
def insertKey (key : Nat) : Program (statements keyTable) (Result Unit) :=
  execute key >>= fun answer => match answer with
  | .ok () => pure (.ok ())
  | .error code => pure (.error (err .internal code.text))

def smoothEvents : Events keyTable :=
  let opened (keys : List Nat) (savepoints : List (String × List Nat)) : Connection (List Nat) :=
    ⟨[], some { current := keys, savepoints }⟩
  [⟨⟨[], none⟩, .control .begin, .ok (), opened [] []⟩,
    ⟨opened [] [], .control (.savepoint (savepointName 0)), .ok (), opened [] [(savepointName 0, [])]⟩,
    ⟨opened [] [(savepointName 0, [])], .statement (.execute (1 : Nat)), .ok (),
      opened [1] [(savepointName 0, [])]⟩,
    ⟨opened [1] [(savepointName 0, [])], .control (.release (savepointName 0)), .ok (), opened [1] []⟩,
    ⟨opened [1] [], .control .commit, .ok (), ⟨[1], none⟩⟩]

theorem smooth_batch_truthful : Truthful (S := keyTable) [insertKey 1] [.ok ()] [] [1] := by
  have hrun : (executeBatch false [insertKey 1]).Performs (Acts keyTable) ⟨[], none⟩ smoothEvents
      [.ok ()] ⟨[1], none⟩ :=
    ⟨_, _, _, .control rfl, rfl, _, _, _, .control rfl, rfl, _, _, _, .statement (.executed rfl), rfl,
      _, _, _, .control rfl, rfl, _, _, _, .control rfl, rfl, rfl, rfl, rfl⟩
  refine executeBatch_truthful hrun ⟨?_, ?_, ?_⟩
  · simp only [smoothEvents, KeepsTransaction, List.forall_mem_cons]
    simp
    exact ⟨fun _ => rfl, fun _ => rfl, fun _ => rfl⟩
  · simp [smoothEvents, Control.effect]
    rfl
  · simp [smoothEvents]

/-- The first insertion fails and takes the transaction with it; the second one is committed
by the `RELEASE` of its own savepoint, and reported as failed. -/
theorem lost_transaction_lies : ∃ t results c',
    (executeBatch false [insertKey 1, insertKey 2]).Performs (Acts keyTable) ⟨[], none⟩ t results c' ∧
      ¬Truthful [insertKey 1, insertKey 2] results ([] : List Nat) c'.durable := by
  refine ⟨_, _, _, ⟨_, _, _, .control rfl, rfl, _, _, _, .control rfl, rfl,
    _, _, _, .statementAborts (.failed "disk I/O error") rfl, rfl,
    _, _, _, .controlFails (.failed "no such savepoint") (by simp), rfl,
    _, _, _, .controlFails (.failed "no such savepoint") (by simp), rfl,
    _, _, _, .control rfl, rfl, _, _, _, .statement (.executed rfl), rfl,
    _, _, _, .control rfl, rfl,
    _, _, _, .controlFails (.failed "no transaction is active") (by simp), rfl,
    _, _, _, .controlFails (.failed "no transaction is active") (fun _ => rfl), rfl,
    rfl, rfl, rfl⟩, ?_⟩
  rintro (_ | _ | ⟨_ | _ | ⟨⟨⟩⟩⟩)

end Sample

end FileService.Sqlite
