import Mathlib.Tactic

/-!
# How write operations form batches

The calls of `Enqueue` by any number of threads. The call that opens a batch is
its leader: it waits until the batch is full, its window has passed or the gate
lets it go, takes the operations of the batch and executes them. The other calls
of the batch wait until it is done. Calls and batches are numbered in the order
in which they begin.
-/
namespace FileService.Sqlite.Batching

/-- A batch; `entered` keeps the calls that joined it after `ops` has been taken. -/
structure Batch where
  ops : List Nat := []
  entered : List Nat := []
  sealed : Bool := false
  done : Bool := false

inductive Position where
  | waiting
  | leading
  | executing (ops : List Nat)
  | finishing
  | returned
deriving DecidableEq

/-- A call of `Enqueue` and the result slot of its operation. -/
structure Call (Op Outcome : Type) where
  op : Op
  batch : Nat
  position : Position
  slot : Option Outcome := none

/-- A run of `ExecuteBatch`: whose batch, on which operations, and whether `BEGIN IMMEDIATE`
succeeded. -/
structure Execution where
  batch : Nat
  ops : List Nat
  begun : Bool
deriving DecidableEq

structure State (Op Outcome : Type) where
  pending : Option Nat := none
  batchCount : Nat := 0
  batch : Nat → Option Batch := fun _ => none
  callCount : Nat := 0
  call : Nat → Option (Call Op Outcome) := fun _ => none
  executions : List Execution := []

variable {Op Outcome : Type}

/-- `group_commit_max_batch`, where values below 1 mean 1. -/
def maxBatch (configured : Int) : Nat := if configured ≤ 0 then 1 else configured.toNat

theorem one_le_maxBatch (configured : Int) : 1 ≤ maxBatch configured := by
  unfold maxBatch
  split <;> omega

/-- `ops.push_back`, which seals a batch that is full. -/
def Batch.push (limit n : Nat) (batch : Batch) : Batch :=
  { batch with
    ops := batch.ops ++ [n]
    entered := batch.entered ++ [n]
    sealed := batch.sealed || decide (limit ≤ (batch.ops ++ [n]).length) }

namespace State

/-- The operations in the order in which their `run` was called. -/
def runs (s : State Op Outcome) : List Nat :=
  s.executions.flatMap fun e => if e.begun then e.ops else []

/-- The pending batch, if it still accepts operations. -/
def openBatch (s : State Op Outcome) : Option (Nat × Batch) :=
  s.pending.bind fun b => (s.batch b).bind fun batch => if batch.sealed then none else some (b, batch)

def setBatch (s : State Op Outcome) (b : Nat) (batch : Batch) : State Op Outcome :=
  { s with batch := Function.update s.batch b (some batch) }

def setCall (s : State Op Outcome) (n : Nat) (call : Call Op Outcome) : State Op Outcome :=
  { s with call := Function.update s.call n (some call) }

/-- A call arrives: it joins the pending batch, or opens a batch of which it is the leader. -/
def arrive (limit : Nat) (op : Op) (s : State Op Outcome) : State Op Outcome :=
  let n := s.callCount
  match s.openBatch with
  | some (b, batch) =>
    { (s.setBatch b (batch.push limit n)).setCall n { op, batch := b, position := .waiting } with
      callCount := n + 1 }
  | none =>
    { (s.setBatch s.batchCount (({} : Batch).push limit n)).setCall n
        { op, batch := s.batchCount, position := .leading } with
      pending := some s.batchCount
      batchCount := s.batchCount + 1
      callCount := n + 1 }

/-- The leader stops waiting: because its batch is full, the gate lets it go or the window
has passed. -/
def flush (n : Nat) (s : State Op Outcome) : Option (State Op Outcome) :=
  (s.call n).bind fun call => (s.batch call.batch).bind fun batch =>
    if call.position = .leading then
      some { (s.setBatch call.batch { batch with sealed := true, ops := [] }).setCall n
          { call with position := .executing batch.ops } with
        pending := if s.pending = some call.batch then none else s.pending }
    else none

/-- `ExecuteBatch` writes the result slot of every operation it is given, by `run` or by
`poison`. -/
def writeSlots (ops : List Nat) (outcome : Nat → Outcome) (s : State Op Outcome) :
    State Op Outcome :=
  { s with call := fun m =>
      (s.call m).map fun call => if m ∈ ops then { call with slot := some (outcome m) } else call }

/-- The leader executes what it has taken. The connection mutex keeps the executions apart;
where `BEGIN IMMEDIATE` fails the operations are not run and their slots hold its error. -/
def execute (n : Nat) (begun : Bool) (outcome : Nat → Outcome) (s : State Op Outcome) :
    Option (State Op Outcome) :=
  (s.call n).bind fun call => match call.position with
    | .executing ops =>
      ((s.writeSlots ops outcome).call n).map fun written =>
        { (s.writeSlots ops outcome).setCall n { written with position := .finishing } with
          executions := s.executions ++ [{ batch := call.batch, ops, begun }] }
    | _ => none

/-- The leader marks its batch as done and returns. -/
def finish (n : Nat) (s : State Op Outcome) : Option (State Op Outcome) :=
  (s.call n).bind fun call => (s.batch call.batch).bind fun batch =>
    if call.position = .finishing then
      some ((s.setBatch call.batch { batch with done := true }).setCall n
        { call with position := .returned })
    else none

/-- A call that waits returns once its batch is done. -/
def leave (n : Nat) (s : State Op Outcome) : Option (State Op Outcome) :=
  (s.call n).bind fun call => (s.batch call.batch).bind fun batch =>
    if call.position = .waiting ∧ batch.done = true then
      some (s.setCall n { call with position := .returned })
    else none

end State

/-- A step of a call that has arrived. -/
inductive Proceeds : State Op Outcome → State Op Outcome → Prop
  | flush {s s' : State Op Outcome} (n : Nat) (h : s.flush n = some s') : Proceeds s s'
  | execute {s s' : State Op Outcome} (n : Nat) (begun : Bool) (outcome : Nat → Outcome)
      (h : s.execute n begun outcome = some s') : Proceeds s s'
  | finish {s s' : State Op Outcome} (n : Nat) (h : s.finish n = some s') : Proceeds s s'
  | leave {s s' : State Op Outcome} (n : Nat) (h : s.leave n = some s') : Proceeds s s'

inductive Reachable (limit : Nat) : State Op Outcome → Prop
  | init : Reachable limit {}
  | arrive {s : State Op Outcome} (op : Op) : Reachable limit s → Reachable limit (s.arrive limit op)
  | proceed {s s' : State Op Outcome} : Reachable limit s → Proceeds s s' → Reachable limit s'

/-! ## The invariant -/

section Invariant
variable {limit : Nat} {s s' : State Op Outcome} {b n : Nat} {batch : Batch}

def Executed (s : State Op Outcome) (b : Nat) (batch : Batch) : Prop :=
  (∃ e ∈ s.executions, e.batch = b ∧ e.ops = batch.entered) ∧
    ∀ n ∈ batch.entered, ∃ call, s.call n = some call ∧ call.batch = b ∧ call.slot.isSome

def Unexecuted (s : State Op Outcome) (b : Nat) : Prop := ∀ e ∈ s.executions, e.batch ≠ b

/-- Where a batch stands, told by the position of its leader. -/
def Stage (s : State Op Outcome) (b : Nat) (batch : Batch) : Position → Prop
  | .waiting => False
  | .leading => batch.ops = batch.entered ∧ batch.done = false ∧ Unexecuted s b
  | .executing ops => ops = batch.entered ∧ batch.sealed = true ∧ batch.done = false ∧ Unexecuted s b
  | .finishing => batch.sealed = true ∧ batch.done = false ∧ Executed s b batch
  | .returned => batch.sealed = true ∧ batch.done = true ∧ Executed s b batch

/-- The leader of the batch is its first call; the others wait for it. -/
structure Led (s : State Op Outcome) (b : Nat) (batch : Batch) (leader : Nat)
    (followers : List Nat) : Prop where
  entered : batch.entered = leader :: followers
  leads : ∃ call, s.call leader = some call ∧ call.batch = b ∧ Stage s b batch call.position
  follow : ∀ n ∈ followers, ∃ call, s.call n = some call ∧ call.batch = b ∧
    (call.position = .waiting ∨ call.position = .returned ∧ batch.done = true)

structure BatchInv (limit : Nat) (s : State Op Outcome) (b : Nat) (batch : Batch) : Prop where
  led : ∃ leader followers, Led s b batch leader followers
  ordered : batch.entered.Pairwise (· < ·)
  size : batch.entered.length ≤ limit
  room : batch.sealed = false → batch.entered.length < limit

structure Inv (limit : Nat) (s : State Op Outcome) : Prop where
  batches : ∀ b batch, s.batch b = some batch → BatchInv limit s b batch
  calls : ∀ n call, s.call n = some call → ∃ batch, s.batch call.batch = some batch ∧
    n ∈ batch.entered
  executions : ∀ e ∈ s.executions, ∃ batch, s.batch e.batch = some batch ∧ e.ops = batch.entered
  once : (s.executions.map Execution.batch).Nodup
  newBatch : ∀ b batch, s.batch b = some batch → b < s.batchCount
  newCall : ∀ n call, s.call n = some call → n < s.callCount

/-- The call has kept its batch and its position, and has not lost its result. -/
def Call.Keeps (call call' : Call Op Outcome) : Prop :=
  call'.batch = call.batch ∧ call'.position = call.position ∧ (call.slot.isSome → call'.slot.isSome)

/-- A batch is where it was as long as its calls and its execution are what they were. -/
theorem BatchInv.congr (h : BatchInv limit s b batch)
    (hcalls : ∀ n call, s.call n = some call → call.batch = b →
      ∃ call', s'.call n = some call' ∧ call.Keeps call')
    (hexecutions : ∀ e : Execution, e.batch = b → (e ∈ s'.executions ↔ e ∈ s.executions)) :
    BatchInv limit s' b batch := by
  obtain ⟨leader, followers, hled⟩ := h.led
  refine ⟨⟨leader, followers, hled.entered, ?_, ?_⟩, h.ordered, h.size, h.room⟩
  · obtain ⟨call, hcall, hbatch, hstage⟩ := hled.leads
    obtain ⟨call', hcall', hkeeps⟩ := hcalls _ _ hcall hbatch
    refine ⟨call', hcall', hkeeps.1.trans hbatch, hkeeps.2.1 ▸ ?_⟩
    have hexecuted : Executed s b batch → Executed s' b batch := by
      refine fun hdone => ⟨?_, fun n hn => ?_⟩
      · obtain ⟨e, he, heb, hops⟩ := hdone.1
        exact ⟨e, (hexecutions e heb).mpr he, heb, hops⟩
      obtain ⟨c, hc, hcb, hslot⟩ := hdone.2 n hn
      obtain ⟨c', hc', hckeeps⟩ := hcalls _ _ hc hcb
      exact ⟨c', hc', hckeeps.1.trans hcb, hckeeps.2.2 hslot⟩
    have hunexecuted : Unexecuted s b → Unexecuted s' b := fun hnone e hmem heb =>
      hnone e ((hexecutions e heb).mp hmem) heb
    cases hposition : call.position with
    | waiting =>
      rw [hposition] at hstage
      exact hstage.elim
    | leading =>
      rw [hposition] at hstage
      exact ⟨hstage.1, hstage.2.1, hunexecuted hstage.2.2⟩
    | executing ops =>
      rw [hposition] at hstage
      exact ⟨hstage.1, hstage.2.1, hstage.2.2.1, hunexecuted hstage.2.2.2⟩
    | finishing =>
      rw [hposition] at hstage
      exact ⟨hstage.1, hstage.2.1, hexecuted hstage.2.2⟩
    | returned =>
      rw [hposition] at hstage
      exact ⟨hstage.1, hstage.2.1, hexecuted hstage.2.2⟩
  · intro n hn
    obtain ⟨call, hcall, hbatch, hposition⟩ := hled.follow n hn
    obtain ⟨call', hcall', hkeeps⟩ := hcalls _ _ hcall hbatch
    exact ⟨call', hcall', hkeeps.1.trans hbatch, hkeeps.2.1 ▸ hposition⟩

/-- A call that is inside `Enqueue` and does not wait is the leader of its batch. -/
theorem Inv.leads (h : Inv limit s) {call : Call Op Outcome} (hcall : s.call n = some call)
    (hbatch : s.batch call.batch = some batch) (hwaiting : call.position ≠ .waiting)
    (hreturned : call.position ≠ .returned) :
    (∃ followers, Led s call.batch batch n followers) ∧ Stage s call.batch batch call.position := by
  obtain ⟨leader, followers, hled⟩ := (h.batches _ _ hbatch).led
  obtain ⟨batch', hbatch', hn⟩ := h.calls n call hcall
  rw [hbatch, Option.some.injEq] at hbatch'
  subst hbatch'
  have hleader : n = leader := by
    rw [hled.entered] at hn
    rcases List.mem_cons.mp hn with rfl | hn
    · rfl
    · obtain ⟨call', hcall', -, hposition⟩ := hled.follow n hn
      rw [hcall, Option.some.injEq] at hcall'
      subst hcall'
      rcases hposition with hw | ⟨hr, -⟩
      · exact absurd hw hwaiting
      · exact absurd hr hreturned
  subst hleader
  obtain ⟨call', hcall', -, hstage⟩ := hled.leads
  rw [hcall, Option.some.injEq] at hcall'
  subst hcall'
  exact ⟨⟨followers, hled⟩, hstage⟩

/-- The leader of a batch is none of its followers. -/
theorem BatchInv.leader_not_mem (h : BatchInv limit s b batch) {leader : Nat}
    {followers : List Nat} (hled : Led s b batch leader followers) : leader ∉ followers := by
  have hordered := h.ordered
  rw [hled.entered, List.pairwise_cons] at hordered
  exact fun hmem => lt_irrefl leader (hordered.1 leader hmem)

/-- What a step of call `n` may change: its batch, its position, and the pending batch. -/
structure Moves (s s' : State Op Outcome) (n : Nat) (call : Call Op Outcome) (position : Position)
    (batch' : Batch) : Prop where
  calls : s'.call = Function.update s.call n (some { call with position })
  batches : s'.batch = Function.update s.batch call.batch (some batch')
  batchCount : s'.batchCount = s.batchCount
  callCount : s'.callCount = s.callCount

section Moves
variable {call : Call Op Outcome} {position : Position} {batch' : Batch}

theorem Moves.call_self (h : Moves s s' n call position batch') :
    s'.call n = some { call with position } := by rw [h.calls, Function.update_self]

theorem Moves.call_of_ne (h : Moves s s' n call position batch') {m : Nat} (hm : m ≠ n) :
    s'.call m = s.call m := by rw [h.calls, Function.update_of_ne hm]

theorem Moves.batch_self (h : Moves s s' n call position batch') :
    s'.batch call.batch = some batch' := by rw [h.batches, Function.update_self]

theorem Moves.batch_of_ne (h : Moves s s' n call position batch') (hb : b ≠ call.batch) :
    s'.batch b = s.batch b := by rw [h.batches, Function.update_of_ne hb]

/-- What has been executed stays so, with its results. -/
theorem Moves.executed (h : Moves s s' n call position batch') (hcall : s.call n = some call)
    (hexecutions : ∀ x ∈ s.executions, x ∈ s'.executions) (hdone : Executed s b batch) :
    Executed s' b batch := by
  obtain ⟨e, he, heb⟩ := hdone.1
  refine ⟨⟨e, hexecutions e he, heb⟩, fun m hm => ?_⟩
  obtain ⟨c, hc, hcb, hslot⟩ := hdone.2 m hm
  by_cases hmn : m = n
  · subst hmn
    rw [hcall, Option.some.injEq] at hc
    subst hc
    exact ⟨_, h.call_self, hcb, hslot⟩
  · exact ⟨c, (h.call_of_ne hmn).trans hc, hcb, hslot⟩

/-- A step within one batch keeps the invariant if it keeps that of the batch. -/
theorem Inv.moves (h : Inv limit s) (hcall : s.call n = some call)
    (hbatch : s.batch call.batch = some batch) (hmoves : Moves s s' n call position batch')
    (hentered : batch'.entered = batch.entered)
    (hexecutions : ∀ e : Execution, e.batch ≠ call.batch →
      (e ∈ s'.executions ↔ e ∈ s.executions))
    (hexecuted : ∀ e ∈ s'.executions, e.batch = call.batch → e.ops = batch'.entered)
    (honce : (s'.executions.map Execution.batch).Nodup) (hinv : BatchInv limit s' call.batch batch') :
    Inv limit s' := by
  refine ⟨?_, ?_, ?_, honce, ?_, ?_⟩
  · intro b x hx
    by_cases hb : b = call.batch
    · subst hb
      rw [hmoves.batch_self, Option.some.injEq] at hx
      exact hx ▸ hinv
    · rw [hmoves.batch_of_ne hb] at hx
      refine (h.batches b x hx).congr (fun m c hc hcb => ⟨c, ?_, rfl, rfl, id⟩)
        fun e heb => hexecutions e (heb ▸ hb)
      rw [hmoves.call_of_ne, hc]
      rintro rfl
      rw [hcall, Option.some.injEq] at hc
      exact hb (hc ▸ hcb).symm
  · intro m c hc
    by_cases hm : m = n
    · subst hm
      rw [hmoves.call_self, Option.some.injEq] at hc
      obtain ⟨x, hx, hn⟩ := h.calls m call hcall
      rw [hbatch, Option.some.injEq] at hx
      exact ⟨batch', hc ▸ hmoves.batch_self, hentered ▸ hx ▸ hn⟩
    · rw [hmoves.call_of_ne hm] at hc
      obtain ⟨x, hx, hn⟩ := h.calls m c hc
      by_cases hb : c.batch = call.batch
      · rw [hb, hbatch, Option.some.injEq] at hx
        exact ⟨batch', hb ▸ hmoves.batch_self, hentered ▸ hx ▸ hn⟩
      · exact ⟨x, (hmoves.batch_of_ne hb).trans hx, hn⟩
  · intro e he
    by_cases hb : e.batch = call.batch
    · exact ⟨batch', hb ▸ hmoves.batch_self, hexecuted e he hb⟩
    · obtain ⟨x, hx, hops⟩ := h.executions e ((hexecutions e hb).mp he)
      exact ⟨x, (hmoves.batch_of_ne hb).trans hx, hops⟩
  · intro b x hx
    rw [hmoves.batchCount]
    by_cases hb : b = call.batch
    · exact hb ▸ h.newBatch _ batch hbatch
    · exact h.newBatch b x ((hmoves.batch_of_ne hb) ▸ hx)
  · intro m c hc
    rw [hmoves.callCount]
    by_cases hm : m = n
    · exact hm ▸ h.newCall n call hcall
    · exact h.newCall m c ((hmoves.call_of_ne hm) ▸ hc)

/-- The batch after a step of its leader: the followers stay where they are. -/
theorem BatchInv.lead (h : BatchInv limit s call.batch batch) {followers : List Nat}
    (hled : Led s call.batch batch n followers) (hmoves : Moves s s' n call position batch')
    (hentered : batch'.entered = batch.entered) (hsealed : batch'.sealed = true)
    (hdone : batch.done = true → batch'.done = true) (hstage : Stage s' call.batch batch' position) :
    BatchInv limit s' call.batch batch' := by
  refine ⟨⟨n, followers, hentered ▸ hled.entered, ⟨_, hmoves.call_self, rfl, hstage⟩, ?_⟩,
    hentered ▸ h.ordered, hentered ▸ h.size, fun hopen => ?_⟩
  · intro m hm
    obtain ⟨c, hc, hcb, hposition⟩ := hled.follow m hm
    have hmn : m ≠ n := fun heq => h.leader_not_mem hled (heq ▸ hm)
    exact ⟨c, (hmoves.call_of_ne hmn).trans hc, hcb,
      hposition.imp_right fun hreturned => ⟨hreturned.1, hdone hreturned.2⟩⟩
  · rw [hsealed] at hopen
    cases hopen

end Moves

/-! ## The steps keep the invariant -/

theorem inv_init : Inv limit ({} : State Op Outcome) := by
  constructor <;> simp

theorem inv_flush (h : Inv limit s) (hstep : s.flush n = some s') : Inv limit s' := by
  simp only [State.flush, Option.bind_eq_some_iff] at hstep
  obtain ⟨call, hcall, batch, hbatch, hflush⟩ := hstep
  by_cases hleading : call.position = .leading
  · rw [if_pos hleading, Option.some.injEq] at hflush
    subst hflush
    obtain ⟨⟨followers, hled⟩, hstage⟩ := h.leads hcall hbatch (by simp [hleading]) (by simp [hleading])
    rw [hleading] at hstage
    have hmoves : Moves s { (s.setBatch call.batch { batch with sealed := true, ops := [] }).setCall n
        { call with position := .executing batch.ops } with
        pending := if s.pending = some call.batch then none else s.pending } n call
        (.executing batch.ops) { batch with sealed := true, ops := [] } := ⟨rfl, rfl, rfl, rfl⟩
    refine h.moves hcall hbatch hmoves rfl (fun _ _ => Iff.rfl)
      (fun e he heb => absurd heb (hstage.2.2 e he)) h.once ?_
    exact (h.batches _ _ hbatch).lead hled hmoves rfl rfl id
      ⟨hstage.1, rfl, hstage.2.1, hstage.2.2⟩
  · rw [if_neg hleading] at hflush
    cases hflush

theorem inv_finish (h : Inv limit s) (hstep : s.finish n = some s') : Inv limit s' := by
  simp only [State.finish, Option.bind_eq_some_iff] at hstep
  obtain ⟨call, hcall, batch, hbatch, hfinish⟩ := hstep
  by_cases hfinishing : call.position = .finishing
  · rw [if_pos hfinishing, Option.some.injEq] at hfinish
    subst hfinish
    obtain ⟨⟨followers, hled⟩, hstage⟩ :=
      h.leads hcall hbatch (by simp [hfinishing]) (by simp [hfinishing])
    rw [hfinishing] at hstage
    have hmoves : Moves s ((s.setBatch call.batch { batch with done := true }).setCall n
        { call with position := .returned }) n call .returned { batch with done := true } :=
      ⟨rfl, rfl, rfl, rfl⟩
    refine h.moves hcall hbatch hmoves rfl (fun _ _ => Iff.rfl) (fun e he heb => ?_) h.once ?_
    · obtain ⟨x, hx, hops⟩ := h.executions e he
      rw [heb, hbatch, Option.some.injEq] at hx
      exact hx ▸ hops
    · refine (h.batches _ _ hbatch).lead hled hmoves rfl hstage.1 (fun _ => rfl)
        ⟨hstage.1, rfl, hmoves.executed hcall (fun _ hx => hx) hstage.2.2⟩
  · rw [if_neg hfinishing] at hfinish
    cases hfinish

theorem inv_leave (h : Inv limit s) (hstep : s.leave n = some s') : Inv limit s' := by
  simp only [State.leave, Option.bind_eq_some_iff] at hstep
  obtain ⟨call, hcall, batch, hbatch, hleave⟩ := hstep
  by_cases hdone : call.position = .waiting ∧ batch.done = true
  · rw [if_pos hdone, Option.some.injEq] at hleave
    subst hleave
    have hmoves : Moves s (s.setCall n { call with position := .returned }) n call .returned batch :=
      ⟨rfl, (Function.update_eq_self_iff.mpr hbatch.symm).symm, rfl, rfl⟩
    refine h.moves hcall hbatch hmoves rfl (fun _ _ => Iff.rfl) (fun e he heb => ?_) h.once ?_
    · obtain ⟨x, hx, hops⟩ := h.executions e he
      rw [heb, hbatch, Option.some.injEq] at hx
      exact hx ▸ hops
    · have hinv := h.batches _ _ hbatch
      obtain ⟨leader, followers, hled⟩ := hinv.led
      obtain ⟨c, hc, hcb, hstage⟩ := hled.leads
      have hleader : leader ≠ n := by
        rintro rfl
        rw [hcall, Option.some.injEq] at hc
        subst hc
        rw [hdone.1] at hstage
        exact hstage
      refine ⟨⟨leader, followers, hled.entered, ⟨c, (hmoves.call_of_ne hleader).trans hc, hcb, ?_⟩,
        fun m hm => ?_⟩, hinv.ordered, hinv.size, hinv.room⟩
      · cases hposition : c.position with
        | waiting =>
          rw [hposition] at hstage
          exact hstage.elim
        | leading =>
          rw [hposition] at hstage
          exact absurd (hdone.2.symm.trans hstage.2.1) (by simp)
        | executing ops =>
          rw [hposition] at hstage
          exact absurd (hdone.2.symm.trans hstage.2.2.1) (by simp)
        | finishing =>
          rw [hposition] at hstage
          exact absurd (hdone.2.symm.trans hstage.2.1) (by simp)
        | returned =>
          rw [hposition] at hstage
          exact ⟨hstage.1, hstage.2.1, hmoves.executed hcall (fun _ hx => hx) hstage.2.2⟩
      · by_cases hmn : m = n
        · subst hmn
          exact ⟨_, hmoves.call_self, rfl, .inr ⟨rfl, hdone.2⟩⟩
        · obtain ⟨c, hc, hcb, hposition⟩ := hled.follow m hm
          exact ⟨c, (hmoves.call_of_ne hmn).trans hc, hcb, hposition⟩
  · rw [if_neg hdone] at hleave
    cases hleave

theorem inv_writeSlots (h : Inv limit s) (ops : List Nat) (outcome : Nat → Outcome) :
    Inv limit (s.writeSlots ops outcome) := by
  have hold : ∀ n call', (s.writeSlots ops outcome).call n = some call' →
      ∃ call, s.call n = some call ∧ call'.batch = call.batch := by
    intro n call' hcall'
    obtain ⟨call, hcall, rfl⟩ := Option.map_eq_some_iff.mp hcall'
    exact ⟨call, hcall, by split <;> rfl⟩
  refine ⟨fun b batch hbatch => (h.batches b batch hbatch).congr (fun n call hcall _ => ?_)
    fun _ _ => Iff.rfl, fun n call' hcall' => ?_, h.executions, h.once, h.newBatch,
    fun n call' hcall' => ?_⟩
  · refine ⟨_, Option.map_eq_some_iff.mpr ⟨call, hcall, rfl⟩, ?_⟩
    split
    · exact ⟨rfl, rfl, fun _ => rfl⟩
    · exact ⟨rfl, rfl, id⟩
  · obtain ⟨call, hcall, hb⟩ := hold n call' hcall'
    exact hb ▸ h.calls n call hcall
  · obtain ⟨call, hcall, -⟩ := hold n call' hcall'
    exact h.newCall n call hcall

theorem slot_of_writeSlots {ops : List Nat} {outcome : Nat → Outcome} {call : Call Op Outcome}
    (hcall : (s.writeSlots ops outcome).call n = some call) (hn : n ∈ ops) : call.slot.isSome := by
  obtain ⟨old, -, rfl⟩ := Option.map_eq_some_iff.mp hcall
  rw [if_pos hn]
  rfl

theorem inv_execute {begun : Bool} {outcome : Nat → Outcome} (h : Inv limit s)
    (hstep : s.execute n begun outcome = some s') : Inv limit s' := by
  obtain ⟨call, hcall, hexecute⟩ := Option.bind_eq_some_iff.mp hstep
  cases hposition : call.position with
  | executing ops =>
    simp only [hposition] at hexecute
    obtain ⟨written, hwritten, rfl⟩ := Option.map_eq_some_iff.mp hexecute
    have hslots := inv_writeSlots h ops outcome
    have hsame : written.batch = call.batch ∧ written.position = .executing ops := by
      obtain ⟨c, hc, rfl⟩ := Option.map_eq_some_iff.mp hwritten
      rw [hcall, Option.some.injEq] at hc
      subst hc
      split <;> exact ⟨rfl, hposition⟩
    obtain ⟨batch, hbatch, -⟩ := hslots.calls n written hwritten
    obtain ⟨⟨followers, hled⟩, hstage⟩ :=
      hslots.leads hwritten hbatch (by simp [hsame.2]) (by simp [hsame.2])
    rw [hsame.2] at hstage
    obtain ⟨rfl, hsealed, hdone, hunexecuted⟩ := hstage
    have hmoves : Moves (s.writeSlots batch.entered outcome)
        { (s.writeSlots batch.entered outcome).setCall n { written with position := .finishing } with
          executions := s.executions ++ [{ batch := call.batch, ops := batch.entered, begun }] }
        n written .finishing batch :=
      ⟨rfl, (Function.update_eq_self_iff.mpr hbatch.symm).symm, rfl, rfl⟩
    refine hslots.moves hwritten hbatch hmoves rfl (fun e he => ?_) (fun e he heb => ?_) ?_ ?_
    · have hne : e ≠ { batch := call.batch, ops := batch.entered, begun } := by
        rintro rfl
        exact he hsame.1.symm
      simp [hne, State.writeSlots]
    · rcases List.mem_append.mp he with he | he
      · exact absurd heb (hunexecuted e he)
      · rw [List.mem_singleton.mp he]
    · rw [List.map_append, List.nodup_append]
      refine ⟨h.once, by simp, fun b hb b' hb' => ?_⟩
      obtain ⟨e, hmem, rfl⟩ := List.mem_map.mp hb
      simp only [List.map_cons, List.map_nil, List.mem_singleton] at hb'
      rw [hb', ← hsame.1]
      exact hunexecuted e hmem
    · refine (hslots.batches _ _ hbatch).lead hled hmoves rfl hsealed id ⟨hsealed, hdone, ?_, ?_⟩
      · exact ⟨_, List.mem_append_right _ (List.mem_singleton_self _), hsame.1.symm, rfl⟩
      · intro m hm
        by_cases hmn : m = n
        · subst hmn
          have hslot : written.slot.isSome := slot_of_writeSlots hwritten hm
          exact ⟨_, hmoves.call_self, rfl, hslot⟩
        · obtain ⟨c, hc, hcb, -⟩ := hled.follow m
            ((List.mem_cons.mp (hled.entered ▸ hm)).resolve_left hmn)
          exact ⟨c, (hmoves.call_of_ne hmn).trans hc, hcb, slot_of_writeSlots hc hm⟩
  | waiting => simp [hposition] at hexecute
  | leading => simp [hposition] at hexecute
  | finishing => simp [hposition] at hexecute
  | returned => simp [hposition] at hexecute

/-- What the arrival of a call changes. -/
structure Arrives (s s' : State Op Outcome) (call : Call Op Outcome) (batch' : Batch) : Prop where
  calls : s'.call = Function.update s.call s.callCount (some call)
  batches : s'.batch = Function.update s.batch call.batch (some batch')
  executions : s'.executions = s.executions
  callCount : s'.callCount = s.callCount + 1
  batchCount : s.batchCount ≤ s'.batchCount
  newBatch : call.batch < s'.batchCount

section Arrives
variable {call : Call Op Outcome} {batch' : Batch}

theorem Arrives.call_self (h : Arrives s s' call batch') : s'.call s.callCount = some call := by
  rw [h.calls, Function.update_self]

theorem Arrives.call_of_some (h : Arrives s s' call batch') (hinv : Inv limit s)
    {c : Call Op Outcome} (hc : s.call n = some c) : s'.call n = some c := by
  rw [h.calls, Function.update_of_ne (hinv.newCall n c hc).ne, hc]

theorem Arrives.batch_self (h : Arrives s s' call batch') : s'.batch call.batch = some batch' := by
  rw [h.batches, Function.update_self]

theorem Arrives.batch_of_ne (h : Arrives s s' call batch') (hb : b ≠ call.batch) :
    s'.batch b = s.batch b := by rw [h.batches, Function.update_of_ne hb]

theorem Inv.arrives (h : Inv limit s) (harrives : Arrives s s' call batch')
    (hunexecuted : Unexecuted s call.batch) (hn : s.callCount ∈ batch'.entered)
    (hentered : ∀ batch, s.batch call.batch = some batch → ∀ m ∈ batch.entered, m ∈ batch'.entered)
    (hinv : BatchInv limit s' call.batch batch') : Inv limit s' := by
  refine ⟨fun b x hx => ?_, fun m c hc => ?_, fun e he => ?_, harrives.executions ▸ h.once,
    fun b x hx => ?_, fun m c hc => ?_⟩
  · by_cases hb : b = call.batch
    · subst hb
      rw [harrives.batch_self, Option.some.injEq] at hx
      exact hx ▸ hinv
    · rw [harrives.batch_of_ne hb] at hx
      exact (h.batches b x hx).congr
        (fun m c hc _ => ⟨c, harrives.call_of_some h hc, rfl, rfl, id⟩)
        fun e _ => by rw [harrives.executions]
  · by_cases hm : m = s.callCount
    · subst hm
      rw [harrives.call_self, Option.some.injEq] at hc
      exact ⟨batch', hc ▸ harrives.batch_self, hn⟩
    · rw [harrives.calls, Function.update_of_ne hm] at hc
      obtain ⟨x, hx, hmem⟩ := h.calls m c hc
      by_cases hb : c.batch = call.batch
      · exact ⟨batch', hb ▸ harrives.batch_self, hentered x (hb ▸ hx) m hmem⟩
      · exact ⟨x, (harrives.batch_of_ne hb).trans hx, hmem⟩
  · rw [harrives.executions] at he
    obtain ⟨x, hx, hops⟩ := h.executions e he
    exact ⟨x, (harrives.batch_of_ne (hunexecuted e he)).trans hx, hops⟩
  · by_cases hb : b = call.batch
    · exact hb ▸ harrives.newBatch
    · exact (h.newBatch b x ((harrives.batch_of_ne hb) ▸ hx)).trans_le harrives.batchCount
  · rw [harrives.callCount]
    by_cases hm : m = s.callCount
    · exact hm ▸ Nat.lt_succ_self _
    · rw [harrives.calls, Function.update_of_ne hm] at hc
      exact Nat.lt_succ_of_lt (h.newCall m c hc)

end Arrives

/-- A batch that still accepts operations has a leader that waits. -/
theorem BatchInv.leading (h : BatchInv limit s b batch) (hopen : batch.sealed = false) :
    ∃ leader followers, Led s b batch leader followers ∧ Stage s b batch .leading ∧
      ∃ call, s.call leader = some call ∧ call.batch = b ∧ call.position = .leading := by
  obtain ⟨leader, followers, hled⟩ := h.led
  obtain ⟨call, hcall, hb, hstage⟩ := hled.leads
  have hleading : call.position = .leading := by
    cases hposition : call.position with
    | leading => rfl
    | waiting =>
      rw [hposition] at hstage
      exact hstage.elim
    | executing ops =>
      rw [hposition] at hstage
      exact absurd (hopen.symm.trans hstage.2.1) (by simp)
    | finishing =>
      rw [hposition] at hstage
      exact absurd (hopen.symm.trans hstage.1) (by simp)
    | returned =>
      rw [hposition] at hstage
      exact absurd (hopen.symm.trans hstage.1) (by simp)
  exact ⟨leader, followers, hled, hleading ▸ hstage, call, hcall, hb, hleading⟩

/-- The calls of a batch have arrived. -/
theorem Led.arrived {leader : Nat} {followers : List Nat} (hled : Led s b batch leader followers)
    (h : Inv limit s) {m : Nat} (hm : m ∈ batch.entered) : m < s.callCount := by
  rcases List.mem_cons.mp (hled.entered ▸ hm) with rfl | hm
  · obtain ⟨c, hc, -⟩ := hled.leads
    exact h.newCall _ c hc
  · obtain ⟨c, hc, -⟩ := hled.follow m hm
    exact h.newCall _ c hc

theorem inv_arrive (hlimit : 1 ≤ limit) (h : Inv limit s) (op : Op) :
    Inv limit (s.arrive limit op) := by
  cases hopen : s.openBatch with
  | some pair =>
    obtain ⟨b, batch⟩ := pair
    obtain ⟨b', -, hopen'⟩ := Option.bind_eq_some_iff.mp hopen
    obtain ⟨x, hbatch, hsealed⟩ := Option.bind_eq_some_iff.mp hopen'
    split at hsealed
    · cases hsealed
    rename_i hsealed'
    obtain ⟨rfl, rfl⟩ : b' = b ∧ x = batch := by simpa using hsealed
    have hunsealed : x.sealed = false := by simpa using hsealed'
    have hinv := h.batches _ _ hbatch
    obtain ⟨leader, followers, hled, hstage, c, hc, hcb, hleading⟩ := hinv.leading hunsealed
    have harrives : Arrives s (s.arrive limit op) { op, batch := b', position := .waiting }
        (x.push limit s.callCount) := by
      unfold State.arrive
      rw [hopen]
      exact ⟨rfl, rfl, rfl, rfl, le_rfl, h.newBatch _ _ hbatch⟩
    have hexecutions : Unexecuted (s.arrive limit op) b' := by
      rw [Unexecuted, harrives.executions]
      exact hstage.2.2
    refine h.arrives harrives hstage.2.2 (by simp [Batch.push]) (fun y hy m hm => ?_) ?_
    · rw [hbatch, Option.some.injEq] at hy
      exact List.mem_append_left _ (hy ▸ hm)
    · refine ⟨⟨leader, followers ++ [s.callCount], ?_, ?_, fun m hm => ?_⟩, ?_, ?_, ?_⟩
      · simp [Batch.push, hled.entered]
      · refine ⟨c, harrives.call_of_some h hc, hcb, hleading ▸ ⟨?_, hstage.2.1, hexecutions⟩⟩
        simp only [Batch.push, hstage.1]
      · rcases List.mem_append.mp hm with hm | hm
        · obtain ⟨f, hf, hfb, hposition⟩ := hled.follow m hm
          exact ⟨f, harrives.call_of_some h hf, hfb, hposition⟩
        · rw [List.mem_singleton.mp hm]
          exact ⟨_, harrives.call_self, rfl, .inl rfl⟩
      · simp only [Batch.push, List.pairwise_append]
        refine ⟨hinv.ordered, by simp, fun m hm k hk => ?_⟩
        rw [List.mem_singleton.mp hk]
        exact hled.arrived h hm
      · have hroom := hinv.room hunsealed
        simp only [Batch.push, List.length_append, List.length_singleton]
        omega
      · intro hstill
        simp only [Batch.push, hstage.1, Bool.or_eq_false_iff, decide_eq_false_iff_not,
          not_le] at hstill
        exact hstill.2
  | none =>
    have hunexecuted : Unexecuted s s.batchCount := fun e he heb => by
      obtain ⟨x, hx, -⟩ := h.executions e he
      exact absurd (h.newBatch _ x hx) (by omega)
    have harrives : Arrives s (s.arrive limit op)
        { op, batch := s.batchCount, position := .leading }
        (({} : Batch).push limit s.callCount) := by
      unfold State.arrive
      rw [hopen]
      exact ⟨rfl, rfl, rfl, rfl, Nat.le_succ _, Nat.lt_succ_self _⟩
    refine h.arrives harrives hunexecuted (by simp [Batch.push]) (fun y hy => ?_) ?_
    · exact absurd (h.newBatch _ y hy) (lt_irrefl _)
    · refine ⟨⟨s.callCount, [], rfl, ?_, by simp⟩, by simp [Batch.push], by simpa [Batch.push],
        fun hstill => ?_⟩
      · refine ⟨_, harrives.call_self, rfl, rfl, rfl, ?_⟩
        rw [Unexecuted, harrives.executions]
        exact hunexecuted
      · simpa [Batch.push] using hstill

theorem inv_proceeds (h : Inv limit s) (hstep : Proceeds s s') : Inv limit s' := by
  cases hstep with
  | flush n hstep => exact inv_flush h hstep
  | execute n begun outcome hstep => exact inv_execute h hstep
  | finish n hstep => exact inv_finish h hstep
  | leave n hstep => exact inv_leave h hstep

theorem inv_reachable (hlimit : 1 ≤ limit) (h : Reachable limit s) : Inv limit s := by
  induction h with
  | init => exact inv_init
  | arrive op _ ih => exact inv_arrive hlimit ih op
  | proceed _ hstep ih => exact inv_proceeds ih hstep

end Invariant

/-! ## What the calls can rely on -/

section Promise
variable {limit : Nat} {s s' : State Op Outcome} {n : Nat}

/-- No call is inside `Enqueue`. -/
def State.Settled (s : State Op Outcome) : Prop :=
  ∀ n call, s.call n = some call → call.position = .returned

/-- What `Enqueue` guarantees about the calls that have arrived and the batches executed so far. -/
structure Batched (limit : Nat) (s : State Op Outcome) : Prop where
  once : (s.executions.flatMap Execution.ops).Nodup
  oneBatch : (s.executions.map Execution.batch).Nodup
  arrivalOrder : ∀ e ∈ s.executions, e.ops.Pairwise (· < ·)
  size : ∀ e ∈ s.executions, e.ops.length ≤ limit
  returned : ∀ n call, s.call n = some call → call.position = .returned →
    call.slot.isSome ∧ ∃ e ∈ s.executions, e.batch = call.batch ∧ n ∈ e.ops ∧
      s.runs.count n = if e.begun then 1 else 0
  proceeds : s.Settled ∨ ∃ s', Proceeds s s'
  returns : Acc (fun s₁ s₀ : State Op Outcome => Proceeds s₀ s₁) s

theorem Inv.execution_call (h : Inv limit s) {e : Execution} (he : e ∈ s.executions)
    (hn : n ∈ e.ops) : ∃ call, s.call n = some call ∧ call.batch = e.batch := by
  obtain ⟨batch, hbatch, hops⟩ := h.executions e he
  obtain ⟨leader, followers, hled⟩ := (h.batches _ _ hbatch).led
  rw [hops, hled.entered] at hn
  rcases List.mem_cons.mp hn with rfl | hn
  · obtain ⟨c, hc, hcb, -⟩ := hled.leads
    exact ⟨c, hc, hcb⟩
  · obtain ⟨c, hc, hcb, -⟩ := hled.follow n hn
    exact ⟨c, hc, hcb⟩

/-- An operation belongs to one execution. -/
theorem Inv.execution_unique (h : Inv limit s) {e e' : Execution} (he : e ∈ s.executions)
    (he' : e' ∈ s.executions) (hn : n ∈ e.ops) (hn' : n ∈ e'.ops) : e = e' := by
  obtain ⟨c, hc, hcb⟩ := h.execution_call he hn
  obtain ⟨c', hc', hcb'⟩ := h.execution_call he' hn'
  rw [hc, Option.some.injEq] at hc'
  subst hc'
  exact List.inj_on_of_nodup_map h.once he he' (hcb.symm.trans hcb')

theorem Inv.arrivalOrder (h : Inv limit s) {e : Execution} (he : e ∈ s.executions) :
    e.ops.Pairwise (· < ·) := by
  obtain ⟨batch, hbatch, hops⟩ := h.executions e he
  exact hops ▸ (h.batches _ _ hbatch).ordered

theorem Inv.nodup_flatMap (h : Inv limit s) (f : Execution → List Nat)
    (hf : ∀ e, (f e).Sublist e.ops) : (s.executions.flatMap f).Nodup := by
  rw [List.nodup_flatMap]
  constructor
  · intro e he
    exact ((h.arrivalOrder he).imp fun hlt => hlt.ne).sublist (hf e)
  · refine ((List.pairwise_map.mp h.once).imp_of_mem ?_)
    intro e e' he he' hne n hn hn'
    exact hne (congrArg Execution.batch
      (h.execution_unique he he' ((hf e).subset hn) ((hf e').subset hn')))

theorem Inv.count_runs (h : Inv limit s) {e : Execution} (he : e ∈ s.executions)
    (hn : n ∈ e.ops) : s.runs.count n = if e.begun then 1 else 0 := by
  have hnodup : s.runs.Nodup := h.nodup_flatMap _ fun e => by split <;> simp
  split
  · next hbegun =>
    refine List.count_eq_one_of_mem hnodup (List.mem_flatMap.mpr ⟨e, he, ?_⟩)
    rw [if_pos hbegun]
    exact hn
  · next hbegun =>
    refine List.count_eq_zero.mpr fun hmem => ?_
    obtain ⟨e', he', hn'⟩ := List.mem_flatMap.mp hmem
    split at hn'
    · next hbegun' => exact hbegun (h.execution_unique he he' hn hn' ▸ hbegun')
    · cases hn'

/-- A call returns when its batch has been executed. -/
theorem Inv.executed_of_returned (h : Inv limit s) {call : Call Op Outcome}
    (hcall : s.call n = some call) (hreturned : call.position = .returned) :
    ∃ batch, n ∈ batch.entered ∧ Executed s call.batch batch := by
  obtain ⟨batch, hbatch, hn⟩ := h.calls n call hcall
  refine ⟨batch, hn, ?_⟩
  obtain ⟨leader, followers, hled⟩ := (h.batches _ _ hbatch).led
  obtain ⟨c, hc, -, hstage⟩ := hled.leads
  rcases List.mem_cons.mp (hled.entered ▸ hn) with rfl | hn
  · rw [hcall, Option.some.injEq] at hc
    subst hc
    rw [hreturned] at hstage
    exact hstage.2.2
  · obtain ⟨c', hc', -, hposition⟩ := hled.follow n hn
    rw [hcall, Option.some.injEq] at hc'
    subst hc'
    have hdone : batch.done = true := by simpa [hreturned] using hposition
    cases hleader : c.position with
    | waiting =>
      rw [hleader] at hstage
      exact hstage.elim
    | leading =>
      rw [hleader] at hstage
      exact absurd (hdone.symm.trans hstage.2.1) (by simp)
    | executing ops =>
      rw [hleader] at hstage
      exact absurd (hdone.symm.trans hstage.2.2.1) (by simp)
    | finishing =>
      rw [hleader] at hstage
      exact absurd (hdone.symm.trans hstage.2.1) (by simp)
    | returned =>
      rw [hleader] at hstage
      exact hstage.2.2

/-- As long as a call is inside `Enqueue`, its leader or the call itself can proceed. -/
theorem Inv.proceeds [Inhabited Outcome] (h : Inv limit s) : s.Settled ∨ ∃ s', Proceeds s s' := by
  by_contra! hstuck
  obtain ⟨hsettled, hnone⟩ := hstuck
  unfold State.Settled at hsettled
  push Not at hsettled
  obtain ⟨n, call, hcall, hposition⟩ := hsettled
  obtain ⟨batch, hbatch, hn⟩ := h.calls n call hcall
  obtain ⟨leader, followers, hled⟩ := (h.batches _ _ hbatch).led
  obtain ⟨c, hc, hcb, hstage⟩ := hled.leads
  have hcbatch : s.batch c.batch = some batch := hcb ▸ hbatch
  cases hleader : c.position with
  | waiting =>
    rw [hleader] at hstage
    exact hstage
  | leading =>
    have henabled : (s.flush leader).isSome := by simp [State.flush, hc, hcbatch, hleader]
    obtain ⟨s', hs'⟩ := Option.isSome_iff_exists.mp henabled
    exact hnone s' (.flush leader hs')
  | executing ops =>
    have henabled : (s.execute leader true fun _ => default).isSome := by
      simp [State.execute, State.writeSlots, hc, hleader]
    obtain ⟨s', hs'⟩ := Option.isSome_iff_exists.mp henabled
    exact hnone s' (.execute leader true _ hs')
  | finishing =>
    have henabled : (s.finish leader).isSome := by simp [State.finish, hc, hcbatch, hleader]
    obtain ⟨s', hs'⟩ := Option.isSome_iff_exists.mp henabled
    exact hnone s' (.finish leader hs')
  | returned =>
    rw [hleader] at hstage
    rcases List.mem_cons.mp (hled.entered ▸ hn) with rfl | hn
    · rw [hcall, Option.some.injEq] at hc
      exact hposition (hc ▸ hleader)
    · obtain ⟨c', hc', -, hfollow⟩ := hled.follow n hn
      rw [hcall, Option.some.injEq] at hc'
      subst hc'
      have hwaiting : call.position = .waiting :=
        hfollow.resolve_right fun hreturned => hposition hreturned.1
      have henabled : (s.leave n).isSome := by
        simp [State.leave, hcall, hbatch, hwaiting, hstage.2.1]
      obtain ⟨s', hs'⟩ := Option.isSome_iff_exists.mp henabled
      exact hnone s' (.leave n hs')

/-- The number of steps until a call returns. -/
def Position.remaining : Position → Nat
  | .waiting => 1
  | .leading => 3
  | .executing _ => 2
  | .finishing => 1
  | .returned => 0

def State.remaining (s : State Op Outcome) : Nat :=
  ∑ n ∈ Finset.range s.callCount, ((s.call n).map fun call => call.position.remaining).getD 0

/-- A step of one call brings it closer to its return and leaves the others where they are. -/
theorem remaining_lt_of_update {call call' : Call Op Outcome} (hcount : s'.callCount = s.callCount)
    (hn : n < s.callCount) (hcall : s.call n = some call) (hcall' : s'.call n = some call')
    (hothers : ∀ m, m ≠ n → (s'.call m).map (fun c => c.position.remaining) =
      (s.call m).map fun c => c.position.remaining)
    (hlt : call'.position.remaining < call.position.remaining) : s'.remaining < s.remaining := by
  unfold State.remaining
  rw [hcount]
  apply Finset.sum_lt_sum
  · intro m _
    by_cases hmn : m = n
    · subst hmn
      simp [hcall, hcall', hlt.le]
    · rw [hothers m hmn]
  · exact ⟨n, Finset.mem_range.mpr hn, by simpa [hcall, hcall'] using hlt⟩

theorem Proceeds.remaining_lt (h : Inv limit s) (hstep : Proceeds s s') :
    s'.remaining < s.remaining := by
  cases hstep with
  | flush n hstep =>
    simp only [State.flush, Option.bind_eq_some_iff] at hstep
    obtain ⟨call, hcall, batch, -, hflush⟩ := hstep
    split at hflush
    · next hleading =>
      obtain rfl := Option.some.inj hflush
      refine remaining_lt_of_update rfl (h.newCall n call hcall) hcall
        (Function.update_self ..) (fun m hm => ?_) ?_
      · simp [State.setBatch, State.setCall, Function.update_of_ne hm]
      · simp [hleading, Position.remaining]
    · cases hflush
  | execute n begun outcome hstep =>
    obtain ⟨call, hcall, hexecute⟩ := Option.bind_eq_some_iff.mp hstep
    split at hexecute
    · next ops hexecuting =>
      obtain ⟨written, hwritten, rfl⟩ := Option.map_eq_some_iff.mp hexecute
      refine remaining_lt_of_update rfl (h.newCall n call hcall) hcall
        (Function.update_self ..) (fun m hm => ?_) ?_
      · simp only [State.setCall, State.writeSlots, Function.update_of_ne hm, Option.map_map]
        congr 1
        funext c
        simp only [Function.comp_apply]
        split <;> rfl
      · simp [hexecuting, Position.remaining]
    · cases hexecute
  | finish n hstep =>
    simp only [State.finish, Option.bind_eq_some_iff] at hstep
    obtain ⟨call, hcall, batch, -, hfinish⟩ := hstep
    split at hfinish
    · next hfinishing =>
      obtain rfl := Option.some.inj hfinish
      refine remaining_lt_of_update rfl (h.newCall n call hcall) hcall
        (Function.update_self ..) (fun m hm => ?_) ?_
      · simp [State.setBatch, State.setCall, Function.update_of_ne hm]
      · simp [hfinishing, Position.remaining]
    · cases hfinish
  | leave n hstep =>
    simp only [State.leave, Option.bind_eq_some_iff] at hstep
    obtain ⟨call, hcall, batch, -, hleave⟩ := hstep
    split at hleave
    · next hwaiting =>
      obtain rfl := Option.some.inj hleave
      refine remaining_lt_of_update rfl (h.newCall n call hcall) hcall
        (Function.update_self ..) (fun m hm => ?_) ?_
      · simp [State.setCall, Function.update_of_ne hm]
      · simp [hwaiting.1, Position.remaining]
    · cases hleave

/-- If no further calls arrive, every call returns. -/
theorem Inv.returns (h : Inv limit s) : Acc (fun s₁ s₀ : State Op Outcome => Proceeds s₀ s₁) s := by
  induction hk : s.remaining using Nat.strong_induction_on generalizing s with
  | _ k ih =>
    subst hk
    exact ⟨s, fun s' hstep => ih _ (hstep.remaining_lt h) (inv_proceeds h hstep) rfl⟩

end Promise

end FileService.Sqlite.Batching
