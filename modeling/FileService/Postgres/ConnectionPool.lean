import FileService.Common.Result

/-!
# The connection pool

Borrowers take the mutex, and what they do while they hold it is one step. A
borrower that finds no connection and no place for a new one waits; whoever
gives a connection back wakes one of those that wait.
-/
namespace FileService.Postgres
open FileService.Common

/-! ## The pool -/

/-- A connection, from its opening to the end of its object. -/
abbrev Conn := Nat

/-- The members of a pool. The connection that was returned last is borrowed first: the back of
`idle_` is the head of the list. -/
structure PgPool where
  maxConnections : Nat
  idle : List Conn := []
  live : Nat := 0

/-- How a turn with the mutex ends. -/
inductive BorrowEnd where
  | handed (c : Conn)
  | failed (e : Error)
  | waits

/-- A turn of `Borrow` with the mutex: its end, the pool after it, and the connections that
were found broken and dropped. -/
structure Borrowed where
  ends : BorrowEnd
  pool : PgPool
  dropped : List Conn := []

/-- The loop of `Borrow` up to its return or its wait; `created` is what `Connect` gives. -/
def borrowLoop (maxConnections : Nat) (healthy : Conn → Bool) (created : Result Conn) :
    List Conn → Nat → Borrowed
  | [], live =>
    if live < maxConnections then
      match created with
      | .error e => ⟨.failed e, ⟨maxConnections, [], live⟩, []⟩
      | .ok c => ⟨.handed c, ⟨maxConnections, [], live + 1⟩, []⟩
    else ⟨.waits, ⟨maxConnections, [], live⟩, []⟩
  | c :: idle, live =>
    if healthy c then ⟨.handed c, ⟨maxConnections, idle, live⟩, []⟩
    else
      let rest := borrowLoop maxConnections healthy created idle (live - 1)
      { rest with dropped := c :: rest.dropped }

def PgPool.borrow (pool : PgPool) (healthy : Conn → Bool) (created : Result Conn) : Borrowed :=
  borrowLoop pool.maxConnections healthy created pool.idle pool.live

/-- `Return` -/
def PgPool.giveBack (pool : PgPool) (healthy : Bool) (c : Conn) : PgPool :=
  if healthy then { pool with idle := c :: pool.idle }
  else { pool with live := if 0 < pool.live then pool.live - 1 else pool.live }

/-! ## Borrowers and handles -/

section System
variable {ι η : Type} [DecidableEq ι] [DecidableEq η]

/-- The pool with the handles that were given out, the health of the connections, the
connections whose objects exist, and the borrowers that wait or were woken and do not have the
mutex yet. -/
structure PoolState (ι η : Type) where
  pool : PgPool
  handles : η → Option Conn := fun _ => none
  healthy : Conn → Bool
  alive : Finset Conn
  waiting : Finset ι := ∅
  woken : Finset ι := ∅

/-- `PgPool::Create` with its first connection. -/
def created (maxConnections : Nat) (c : Conn) : PoolState ι η where
  pool := { maxConnections, idle := [c], live := 1 }
  healthy := Function.update (fun _ => false) c true
  alive := {c}

/-- A turn of a borrower, with the handle that receives the connection. -/
def PoolState.borrowed (s : PoolState ι η) (i : ι) (h : η) (r : Borrowed) : PoolState ι η :=
  let next : PoolState ι η :=
    { s with pool := r.pool, alive := s.alive \ r.dropped.toFinset, woken := s.woken.erase i }
  match r.ends with
  | .handed c =>
    { next with
      handles := Function.update s.handles h (some c)
      healthy := Function.update s.healthy c true
      alive := insert c next.alive }
  | .failed _ => next
  | .waits => { next with waiting := insert i s.waiting }

/-- A handle gives its connection back. -/
def PoolState.gaveBack (s : PoolState ι η) (h : η) (c : Conn) : PoolState ι η :=
  { s with
    pool := s.pool.giveBack (s.healthy c) c
    handles := Function.update s.handles h none
    alive := if s.healthy c then s.alive else s.alive.erase c }

def PoolState.wake (s : PoolState ι η) (i : ι) : PoolState ι η :=
  { s with waiting := s.waiting.erase i, woken := insert i s.woken }

/-- What happens to a pool; a borrower comes with what `Connect` gives it, if it calls it. -/
inductive PoolEvent (ι η : Type) where
  | borrow (i : ι) (h : η) (created : Result Conn)
  | giveBack (h : η)
  | move (source target : η)
  | wakes (i : ι)
  | sickens (c : Conn)

/-- The steps. A new connection is healthy and none of those that exist; destroying a handle and
assigning to it give its connection back, and an assignment then moves the other one. -/
inductive PoolStep (s : PoolState ι η) : PoolEvent ι η → PoolState ι η → Prop
  | borrow {i : ι} {h : η} {created : Result Conn} :
      i ∉ s.waiting → s.handles h = none → (∀ c, created = .ok c → c ∉ s.alive) →
      PoolStep s (.borrow i h created)
        (s.borrowed i h (s.pool.borrow s.healthy created))
  | giveBackAlone {h : η} {c : Conn} :
      s.handles h = some c → s.waiting = ∅ → PoolStep s (.giveBack h) (s.gaveBack h c)
  | giveBack {h : η} {c : Conn} {i : ι} :
      s.handles h = some c → i ∈ s.waiting → PoolStep s (.giveBack h) ((s.gaveBack h c).wake i)
  | move {source target : η} {c : Conn} :
      s.handles source = some c → s.handles target = none →
      PoolStep s (.move source target)
        { s with
          handles := Function.update (Function.update s.handles source none) target (some c) }
  | wakes {i : ι} : i ∈ s.waiting → PoolStep s (.wakes i) (s.wake i)
  | sickens {c : Conn} :
      PoolStep s (.sickens c) { s with healthy := Function.update s.healthy c false }

/-- The states that a run from the creation of a pool leads to, where every step is as `K` says. -/
inductive PoolReaches (K : PoolState ι η → PoolEvent ι η → Prop) (maxConnections : Nat) :
    PoolState ι η → Prop
  | create (c : Conn) : 0 < maxConnections → PoolReaches K maxConnections (created maxConnections c)
  | step {s s' : PoolState ι η} {event : PoolEvent ι η} :
      PoolReaches K maxConnections s → PoolStep s event s' → K s event →
      PoolReaches K maxConnections s'

/-! ## What the pool promises -/

/-- Every connection that exists is idle once or held by one handle, and the counters agree. -/
structure Accounted (maxConnections : Nat) (s : PoolState ι η) : Prop where
  limit : s.pool.maxConnections = maxConnections
  nodup : s.pool.idle.Nodup
  owned : ∀ c, c ∈ s.alive ↔ c ∈ s.pool.idle ∨ ∃ h, s.handles h = some c
  apart : ∀ {h c}, s.handles h = some c → c ∉ s.pool.idle
  single : ∀ {h h' c}, s.handles h = some c → s.handles h' = some c → h = h'
  idle_le : s.pool.idle.length ≤ s.pool.live
  live_le : s.pool.live ≤ maxConnections
  live_eq : s.pool.live = s.alive.card

/-- A connection that is handed out is healthy, unless it was opened just now. -/
def LendsHealthy (s : PoolState ι η) (event : PoolEvent ι η) : Prop :=
  ∀ i h created c, event = .borrow i h created →
    (s.pool.borrow s.healthy created).ends = .handed c → c ∈ s.alive → s.healthy c = true

/-- No borrower waits while there is a connection or a place for one, unless one was woken. -/
def NoneStuck (s : PoolState ι η) : Prop :=
  s.waiting.Nonempty → s.pool.live < s.pool.maxConnections ∨ s.pool.idle ≠ [] → s.woken.Nonempty

/-- A borrower has to connect: no idle connection is healthy and there is a place. -/
def HasToConnect (s : PoolState ι η) : Prop :=
  (∀ c ∈ s.pool.idle, s.healthy c = false) ∧
    s.pool.live - s.pool.idle.length < s.pool.maxConnections

/-- When a borrower that was woken has to connect while others wait, `Connect` succeeds. -/
def KeepsWakeUps (s : PoolState ι η) (event : PoolEvent ι η) : Prop :=
  ∀ i h created, event = .borrow i h created → i ∈ s.woken → s.waiting.Nonempty →
    HasToConnect s → ∃ c, created = .ok c

end System

/-! ## One turn of a borrower -/

section Turn
variable {maxConnections live : Nat} {healthy : Conn → Bool} {created : Result Conn}
variable {idle : List Conn}

/-- How a turn ends: broken connections are dropped first. -/
inductive TurnCase (maxConnections : Nat) (healthy : Conn → Bool) (created : Result Conn)
    (idle : List Conn) (live : Nat) : Borrowed → Prop
  | reuse {dropped rest : List Conn} {c : Conn} : idle = dropped ++ c :: rest →
      (∀ d ∈ dropped, healthy d = false) → healthy c = true →
      TurnCase maxConnections healthy created idle live
        ⟨.handed c, ⟨maxConnections, rest, live - dropped.length⟩, dropped⟩
  | connect {c : Conn} : (∀ d ∈ idle, healthy d = false) → live - idle.length < maxConnections →
      created = .ok c →
      TurnCase maxConnections healthy created idle live
        ⟨.handed c, ⟨maxConnections, [], live - idle.length + 1⟩, idle⟩
  | fail {e : Error} : (∀ d ∈ idle, healthy d = false) → live - idle.length < maxConnections →
      created = .error e →
      TurnCase maxConnections healthy created idle live
        ⟨.failed e, ⟨maxConnections, [], live - idle.length⟩, idle⟩
  | wait : (∀ d ∈ idle, healthy d = false) → maxConnections ≤ live - idle.length →
      TurnCase maxConnections healthy created idle live
        ⟨.waits, ⟨maxConnections, [], live - idle.length⟩, idle⟩

/-- One broken connection is dropped before the rest of the turn. -/
theorem TurnCase.drop {r : Borrowed} {c : Conn} (hc : healthy c = false)
    (h : TurnCase maxConnections healthy created idle (live - 1) r) :
    TurnCase maxConnections healthy created (c :: idle) live { r with dropped := c :: r.dropped } := by
  have hcount : ∀ n, live - 1 - n = live - (n + 1) := by
    intro n
    omega
  have hbroken : ∀ {broken : List Conn}, (∀ d ∈ broken, healthy d = false) →
      ∀ d ∈ c :: broken, healthy d = false := by
    intro broken h
    exact List.forall_mem_cons.mpr ⟨hc, h⟩
  cases h with
  | @reuse dropped rest d hidle hdropped hhealthy =>
    rw [hcount]
    exact @TurnCase.reuse _ _ _ _ _ (c :: dropped) rest d (by rw [hidle, List.cons_append])
      (hbroken hdropped) hhealthy
  | connect hidle hroom hcreated =>
    rw [hcount] at hroom ⊢
    exact .connect (hbroken hidle) hroom hcreated
  | fail hidle hroom hcreated =>
    rw [hcount] at hroom ⊢
    exact .fail (hbroken hidle) hroom hcreated
  | wait hidle hfull =>
    rw [hcount] at hfull ⊢
    exact .wait (hbroken hidle) hfull

theorem borrowLoop_cases : TurnCase maxConnections healthy created idle live
    (borrowLoop maxConnections healthy created idle live) := by
  induction idle generalizing live with
  | nil =>
    have hnone : ∀ d ∈ ([] : List Conn), healthy d = false := by simp
    unfold borrowLoop
    by_cases hroom : live < maxConnections
    · rw [if_pos hroom]
      cases hcreated : created with
      | ok c => exact .connect hnone hroom rfl
      | error e => exact .fail hnone hroom rfl
    · rw [if_neg hroom]
      exact .wait hnone (not_lt.mp hroom)
  | cons c idle ih =>
    unfold borrowLoop
    by_cases hhealthy : healthy c = true
    · rw [if_pos hhealthy]
      exact @TurnCase.reuse _ _ _ _ _ [] idle c rfl (by simp) hhealthy
    · rw [if_neg hhealthy]
      exact ih.drop (Bool.eq_false_iff.mpr hhealthy)

end Turn

end FileService.Postgres
