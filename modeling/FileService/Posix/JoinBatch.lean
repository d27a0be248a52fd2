import FileService.Posix.BlobStore

/-!
# Puts that share batches

Any number of puts call `JoinBatch`. What a put does from taking a mutex to
giving it back, or to a wait, is one step, and the steps of the puts interleave.
A put that waits on the condition variable sleeps until it is notified, wakes
without a reason or, as the leader of its batch, reaches the end of its window.
-/
namespace FileService.Posix
open FileService.Common FileService.Domain FileService.Interaction

/-- `PosixBlobStore::Batch`; an entry stands under the put that handed it over. -/
structure Batch (ι : Type) where
  entries : List ι := []
  results : List (Result Unit) := []
  sealed : Bool := false
  done : Bool := false

/-- Where a put stands in `JoinBatch`. Past the first, every point knows the batch and
`my_index`. -/
inductive Point (ι : Type) where
  | outside
  /-- It has put its entry into the batch and holds `batch_mutex_`. -/
  | enters (batch index : Nat)
  /-- The first of a batch, in its window. -/
  | leads (batch : Nat) (asleep : Bool)
  | waits (batch index : Nat) (asleep : Bool)
  /-- The committer, with the entries it has moved out, before `batch_commit_mutex_`. -/
  | commits (batch index : Nat) (committed : List ι)
  /-- The committer in `CommitBatch`. -/
  | committing (batch index : Nat) (committed : List ι)
  /-- The committer, before it takes `batch_mutex_` again. -/
  | tells (batch index : Nat)
  | returned (batch index : Nat) (result : Result Unit)

/-- The batch of a put and its place there. -/
def Point.seat : Point ι → Option (Nat × Nat)
  | .outside => none
  | .enters b k => some (b, k)
  | .leads b _ => some (b, 0)
  | .waits b k _ => some (b, k)
  | .commits b k _ => some (b, k)
  | .committing b k _ => some (b, k)
  | .tells b k => some (b, k)
  | .returned b k _ => some (b, k)

def Point.woken : Point ι → Point ι
  | .leads b _ => .leads b false
  | .waits b k _ => .waits b k false
  | p => p

/-- The life of a batch: it gathers entries; a put takes it, calls `CommitBatch`, returns from
it and tells the others. -/
inductive Stage (ι : Type) where
  | gathering
  | taken (committer : ι)
  | begun (committer : ι)
  | ended (committer : ι)
  | told (committer : ι)

/-- A call of `CommitBatch`: who makes it, for which batch and with which entries. -/
structure CommitCall (ι : Type) where
  committer : ι
  batch : Nat
  entries : List ι

/-- The members of the store that `JoinBatch` uses, the batches that were made, and where the
puts stand; the last four fields record what has happened. -/
structure BatchState (ι : Type) where
  batches : Nat → Batch ι := fun _ => {}
  made : Nat := 0
  current : Option Nat := none
  commitLock : Option ι := none
  point : ι → Point ι := fun _ => .outside
  members : Nat → List ι := fun _ => []
  stage : Nat → Stage ι := fun _ => .gathering
  called : List (CommitCall ι) := []
  answered : List (CommitCall ι × List (Result Unit)) := []

namespace BatchState
variable {ι : Type} [DecidableEq ι] (s : BatchState ι) (i : ι)

def goes (p : Point ι) : BatchState ι := { s with point := Function.update s.point i p }

/-- `batch_cv_.notify_all()` -/
def notifyAll : BatchState ι := { s with point := fun j => (s.point j).woken }

def newBatch : Nat × BatchState ι :=
  (s.made,
    { s with
      batches := Function.update s.batches s.made {}
      made := s.made + 1
      current := some s.made })

/-- The current batch, or a new one if there is none or it is sealed. -/
def openBatch : Nat × BatchState ι :=
  match s.current with
  | none => s.newBatch
  | some b => if (s.batches b).sealed then s.newBatch else (b, s)

def push (b : Nat) : BatchState ι :=
  { s with
    batches := Function.update s.batches b
      { s.batches b with entries := (s.batches b).entries ++ [i] }
    point := Function.update s.point i (.enters b (s.batches b).entries.length)
    members := Function.update s.members b (s.members b ++ [i]) }

/-- The put seals the batch, which is then no longer the current one, and moves the entries
out. -/
def take (b k : Nat) : BatchState ι :=
  { s with
    batches := Function.update s.batches b { s.batches b with sealed := true, entries := [] }
    current := if s.current = some b then none else s.current
    point := Function.update s.point i (.commits b k (s.batches b).entries)
    stage := Function.update s.stage b (.taken i) }

/-- The end of `JoinBatch`. -/
def leave (b k : Nat) : BatchState ι :=
  s.goes i (.returned b k ((s.batches b).results[k]?.getD (.ok ())))

/-- The wait for `done`. -/
def awaitDone (b k : Nat) : BatchState ι :=
  if (s.batches b).done then s.leave i b k else s.goes i (.waits b k true)

/-- A turn of the leader in its window: there are `writers` puts on their way, and the window may
be over. -/
def lead (b writers : Nat) (late : Bool) : BatchState ι :=
  if (s.batches b).sealed || writers ≤ (s.batches b).entries.length || late then
    if (s.batches b).sealed then s.awaitDone i b 0 else s.take i b 0
  else s.goes i (.leads b true)

/-- From the arrival of a put up to its first wait or to the commit of its batch. -/
def join (groupCommitMaxBatch writers : Nat) (late : Bool) : BatchState ι :=
  let (b, opened) := s.openBatch
  let index := (opened.batches b).entries.length
  let entered := opened.push i b
  let maxBatch := if groupCommitMaxBatch = 0 then 1 else groupCommitMaxBatch
  if maxBatch ≤ (entered.batches b).entries.length then entered.notifyAll.take i b index
  else if index = 0 then entered.lead i b writers late
  else entered.awaitDone i b index

/-- The committer has taken `batch_commit_mutex_` and calls `CommitBatch`. -/
def begin (b k : Nat) (committed : List ι) : BatchState ι :=
  { s with
    commitLock := some i
    point := Function.update s.point i (.committing b k committed)
    stage := Function.update s.stage b (.begun i)
    called := ⟨i, b, committed⟩ :: s.called }

/-- `CommitBatch` returns and the committer gives its mutex back. -/
def finish (b k : Nat) (committed : List ι) (results : List (Result Unit)) : BatchState ι :=
  { s with
    batches := Function.update s.batches b { s.batches b with results }
    commitLock := none
    point := Function.update s.point i (.tells b k)
    stage := Function.update s.stage b (.ended i)
    answered := (⟨i, b, committed⟩, results) :: s.answered }

/-- The committer tells the others that the batch is done. -/
def tell (b : Nat) : BatchState ι :=
  { s with
    batches := Function.update s.batches b { s.batches b with done := true }
    stage := Function.update s.stage b (.told i) }.notifyAll

end BatchState

/-! ## Steps -/

section Steps
variable {ι : Type} [DecidableEq ι]

/-- The entries that puts with these renamings hand over. -/
def entriesOf (renames : ι → List PendingRename) (puts : List ι) : List BatchEntry :=
  puts.map fun i => ⟨renames i⟩

variable (syncDirAfterBatch : Bool) (groupCommitMaxBatch : Nat) (renames : ι → List PendingRename)

/-- A put that has arrived goes on: its window is over, it is awake and takes `batch_mutex_`, it
takes the free `batch_commit_mutex_`, or `CommitBatch` returns. -/
inductive PutStep (i : ι) (s : BatchState ι) : BatchState ι → Prop
  | lead {b writers : Nat} {asleep : Bool} :
      s.point i = .leads b asleep → PutStep i s (s.lead i b writers true)
  | wait {b k : Nat} : s.point i = .waits b k false → PutStep i s (s.awaitDone i b k)
  | begin {b k : Nat} {committed : List ι} :
      s.point i = .commits b k committed → s.commitLock = none →
      PutStep i s (s.begin i b k committed)
  | finish {b k : Nat} {committed : List ι} {t : Trace posix} {results : List (Result Unit)} :
      s.point i = .committing b k committed →
      (commitBatch syncDirAfterBatch (entriesOf renames committed)).Emits t results →
      PutStep i s (s.finish i b k committed results)
  | tell {b k : Nat} : s.point i = .tells b k → PutStep i s ((s.tell i b).leave i b k)

/-- The steps: a put arrives or goes on, a leader looks around within its window, and a put
wakes without a reason. -/
inductive BatchStep (s : BatchState ι) : BatchState ι → Prop
  | join {i : ι} {writers : Nat} {late : Bool} :
      s.point i = .outside → BatchStep s (s.join i groupCommitMaxBatch writers late)
  | proceed {i : ι} {s' : BatchState ι} :
      PutStep syncDirAfterBatch renames i s s' → BatchStep s s'
  | look {i : ι} {b writers : Nat} :
      s.point i = .leads b false → BatchStep s (s.lead i b writers false)
  | wake {i : ι} : BatchStep s (s.goes i (s.point i).woken)

end Steps

end FileService.Posix

/-!
## The life of a batch

The stage of a batch says what its flags are, who commits it and what was
called for it; the place of a put says where it may stand.
-/
namespace FileService.Posix
open FileService.Common FileService.Domain FileService.Interaction

/-! ## Stages -/

section Stages
variable {ι : Type} {i c : ι} {x y : Stage ι}

@[simp] def Stage.isSealed : Stage ι → Bool
  | .gathering => false
  | _ => true

@[simp] def Stage.isTold : Stage ι → Bool
  | .told _ => true
  | _ => false

/-- Who has called `CommitBatch`. -/
@[simp] def Stage.begunBy : Stage ι → Option ι
  | .gathering => none
  | .taken _ => none
  | .begun c => some c
  | .ended c => some c
  | .told c => some c

/-- For whom `CommitBatch` has returned. -/
@[simp] def Stage.endedBy : Stage ι → Option ι
  | .ended c => some c
  | .told c => some c
  | _ => none

/-- Who is about to call `CommitBatch`, has called it or is about to tell the others. -/
@[simp] def Stage.committer : Stage ι → Option ι
  | .taken c => some c
  | .begun c => some c
  | .ended c => some c
  | _ => none

/-- One action of a put on the batch. -/
inductive Stage.Next (i : ι) : Stage ι → Stage ι → Prop
  | take : Next i .gathering (.taken i)
  | begin : Next i (.taken i) (.begun i)
  | finish : Next i (.begun i) (.ended i)
  | tell : Next i (.ended i) (.told i)

/-- Actions of a put on the batch. -/
abbrev Stage.Goes (i : ι) : Stage ι → Stage ι → Prop := Relation.ReflTransGen (Stage.Next i)

theorem Stage.Goes.isSealed (h : Stage.Goes i x y) (hx : x.isSealed = true) :
    y.isSealed = true := by
  induction h with
  | refl => exact hx
  | tail _ hnext _ => cases hnext <;> rfl

theorem Stage.Goes.isTold (h : Stage.Goes i x y) (hx : x.isTold = true) : y = x := by
  induction h with
  | refl => rfl
  | tail _ hnext ih =>
    subst ih
    cases hnext <;> cases hx

/-- A put leaves alone what another one commits. -/
theorem Stage.Goes.committer (h : Stage.Goes i x y) (hc : c ≠ i) (hx : x.committer = some c) :
    y = x := by
  induction h with
  | refl => rfl
  | tail _ hnext ih =>
    subst ih
    cases hnext <;> simp [hc.symm] at hx

theorem Stage.Goes.committed (h : Stage.Goes i x y) (hc : c ≠ i) (hy : y.committer = some c) :
    y = x := by
  cases h with
  | refl => rfl
  | tail _ hnext => cases hnext <;> simp [hc.symm] at hy

end Stages

/-! ## The invariant -/

section Invariant
variable {ι : Type}

/-- A put stands where the stage of its batch lets it. -/
def Placed (s : BatchState ι) (i : ι) : Point ι → Prop
  | .outside => True
  | .enters _ _ => True
  | .leads _ _ => True
  | .waits b k asleep =>
    (asleep = true → (s.stage b).isTold = false) ∧ (k = 0 → (s.stage b).isSealed = true)
  | .commits b _ committed => s.stage b = .taken i ∧ committed = s.members b
  | .committing b _ committed =>
    s.stage b = .begun i ∧ committed = s.members b ∧ s.commitLock = some i
  | .tells b _ => s.stage b = .ended i
  | .returned b k r => (s.stage b).isTold = true ∧ (s.batches b).results[k]? = some r

/-- While a batch is committed, its committer is at the point that the stage says. -/
def Attended (s : BatchState ι) (b : Nat) : Stage ι → Prop
  | .gathering => True
  | .taken c => ∃ k, s.point c = .commits b k (s.members b)
  | .begun c => ∃ k, s.point c = .committing b k (s.members b)
  | .ended c => ∃ k, s.point c = .tells b k
  | .told _ => True

structure Arranged (s : BatchState ι) : Prop where
  placed : ∀ i, Placed s i (s.point i)
  attended : ∀ b, Attended s b (s.stage b)
  lock : ∀ c, s.commitLock = some c → ∃ b k committed, s.point c = .committing b k committed

/-- The members of a batch are the puts that have a seat in it. -/
structure Seated (groupCommitMaxBatch : Nat) (s : BatchState ι) : Prop where
  seats : ∀ i b k, (s.point i).seat = some (b, k) ↔ (s.members b)[k]? = some i
  size : ∀ b, (s.members b).length ≤ max 1 groupCommitMaxBatch
  fresh : ∀ b, s.made ≤ b → s.members b = []

structure Flagged (s : BatchState ι) : Prop where
  sealed : ∀ b, (s.batches b).sealed = (s.stage b).isSealed
  done : ∀ b, (s.batches b).done = (s.stage b).isTold
  entries : ∀ b, (s.batches b).entries = if (s.stage b).isSealed then [] else s.members b
  current : ∀ b, s.current = some b → (s.stage b).isSealed = false ∧ b < s.made
  fresh : ∀ b, s.made ≤ b → (s.stage b).isSealed = false

/-- `CommitBatch` was called once for each batch that is past the call, with its members, and its
answer is what the batch keeps. -/
structure Recorded (syncDirAfterBatch : Bool) (renames : ι → List PendingRename)
    (s : BatchState ι) : Prop where
  called : ∀ call, call ∈ s.called ↔
    (s.stage call.batch).begunBy = some call.committer ∧ call.entries = s.members call.batch
  once : (s.called.map CommitCall.batch).Nodup
  answered : ∀ call results, (call, results) ∈ s.answered ↔
    (s.stage call.batch).endedBy = some call.committer ∧ call.entries = s.members call.batch ∧
      results = (s.batches call.batch).results
  emitted : ∀ b c, (s.stage b).endedBy = some c → ∃ t,
    (commitBatch syncDirAfterBatch (entriesOf renames (s.members b))).Emits t (s.batches b).results

end Invariant

/-! ## Seats -/

section Seats
variable {ι : Type} {groupCommitMaxBatch : Nat} {s s' : BatchState ι} {i : ι} {b k : Nat}

@[simp] theorem Point.seat_woken (p : Point ι) : p.woken.seat = p.seat := by
  cases p <;> rfl

/-- Where the puts keep their seats, the seating is as it was. -/
theorem Seated.of_seats (h : Seated groupCommitMaxBatch s) (hmembers : s'.members = s.members)
    (hseats : ∀ j, (s'.point j).seat = (s.point j).seat) (hmade : s.made ≤ s'.made) :
    Seated groupCommitMaxBatch s' := by
  constructor
  · intro j b k
    rw [hseats, hmembers]
    exact h.seats j b k
  · intro b
    rw [hmembers]
    exact h.size b
  · intro b hb
    rw [hmembers]
    exact h.fresh b (hmade.trans hb)

variable [DecidableEq ι]

theorem Seated.goes (h : Seated groupCommitMaxBatch s) {p : Point ι}
    (hp : p.seat = (s.point i).seat) : Seated groupCommitMaxBatch (s.goes i p) := by
  have hseats : ∀ j, ((s.goes i p).point j).seat = (s.point j).seat := by
    intro j
    unfold BatchState.goes
    by_cases hj : j = i
    · subst hj
      simp [hp]
    · simp [hj]
  exact h.of_seats rfl hseats le_rfl

theorem Seated.push (h : Seated groupCommitMaxBatch s) (hi : s.point i = .outside)
    (hb : b < s.made) (hentries : (s.batches b).entries = s.members b)
    (hroom : (s.members b).length < max 1 groupCommitMaxBatch) :
    Seated groupCommitMaxBatch (s.push i b) := by
  have hnone : ∀ b' k : Nat, (s.members b')[k]? ≠ some i := by
    intro b' k hk
    have hseat := (h.seats i b' k).mpr hk
    rw [hi] at hseat
    cases hseat
  constructor
  · intro j b' k
    dsimp only [BatchState.push]
    rw [hentries]
    by_cases hj : j = i
    · subst hj
      rw [Function.update_self]
      by_cases hb' : b' = b
      · subst hb'
        rw [Function.update_self, List.getElem?_append]
        split
        · rename_i hk
          have hlength : (s.members b').length ≠ k := by omega
          simp [Point.seat, hlength, hnone b' k]
        · rename_i hk
          have hlast : (s.members b').length = k ↔ k - (s.members b').length = 0 := by omega
          simp [Point.seat, List.getElem?_singleton, hlast]
      · rw [Function.update_of_ne hb']
        simp [Point.seat, hnone, Ne.symm hb']
    · rw [Function.update_of_ne hj, h.seats j b' k]
      by_cases hb' : b' = b
      · subst hb'
        rw [Function.update_self, List.getElem?_append]
        split
        · rfl
        · rename_i hk
          rw [List.getElem?_eq_none (not_lt.mp hk)]
          simp [List.getElem?_singleton, Ne.symm hj]
      · rw [Function.update_of_ne hb']
  · intro b'
    dsimp only [BatchState.push]
    by_cases hb' : b' = b
    · subst hb'
      rw [Function.update_self, List.length_append, List.length_singleton]
      exact hroom
    · rw [Function.update_of_ne hb']
      exact h.size b'
  · intro b' hb'
    dsimp only [BatchState.push] at hb' ⊢
    rw [Function.update_of_ne (by omega)]
    exact h.fresh b' hb'

omit [DecidableEq ι] in
/-- A put has one seat and shares it with no other. -/
theorem Seated.nodup (h : Seated groupCommitMaxBatch s) (b : Nat) : (s.members b).Nodup := by
  rw [List.nodup_iff_getElem?_ne_getElem?]
  intro k l hkl hl heq
  have hj : (s.members b)[l]? = some (s.members b)[l] := List.getElem?_eq_getElem hl
  have hk := (h.seats _ b k).mpr (heq.trans hj)
  rw [(h.seats _ b l).mpr hj] at hk
  simp only [Option.some.injEq, Prod.mk.injEq, true_and] at hk
  omega

omit [DecidableEq ι] in
theorem Seated.disjoint (h : Seated groupCommitMaxBatch s) {b b' : Nat} (hi : i ∈ s.members b)
    (hi' : i ∈ s.members b') : b = b' := by
  obtain ⟨k, hk⟩ := List.mem_iff_getElem?.mp hi
  obtain ⟨k', hk'⟩ := List.mem_iff_getElem?.mp hi'
  have hseat := (h.seats i b k).mpr hk
  rw [(h.seats i b' k').mpr hk'] at hseat
  simp at hseat
  exact hseat.1.symm

end Seats

end FileService.Posix
