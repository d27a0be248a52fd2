import FileService.Common.Result
import FileService.Interaction.Component

/-!
# Leader election

Every instance has a session of its own on the shared database, and the leader
is the one whose session holds the advisory lock. The lock belongs to a session,
may be taken several times by it, and is released when the session ends.
-/
namespace FileService.Postgres
open FileService.Common FileService.Interaction

/-! ## The database -/

abbrev Session := Nat

/-- The sessions that are alive, and the session that holds the lock, with the number of
times that it took it again. -/
structure Server where
  live : Session → Bool := fun _ => false
  lock : Option (Session × Nat) := none
  next : Session := 0

namespace Server
variable (server : Server)

def connect : Server :=
  { server with live := Function.update server.live server.next true, next := server.next + 1 }

/-- A session ends, and its lock is released. -/
def finish (t : Session) : Server :=
  { server with
    live := Function.update server.live t false
    lock := server.lock.filter fun held => held.1 != t }

/-- `pg_try_advisory_lock` -/
def tryLock (t : Session) : Bool × Server :=
  match server.lock with
  | none => (true, { server with lock := some (t, 0) })
  | some (holder, again) =>
    if holder = t then (true, { server with lock := some (t, again + 1) }) else (false, server)

/-- `pg_advisory_unlock` -/
def unlock (t : Session) : Server :=
  match server.lock with
  | none => server
  | some (holder, again) =>
    if holder = t then
      { server with lock := match again with
        | 0 => none
        | again + 1 => some (t, again) }
    else server

end Server

/-! ## The instances -/

/-- The members of an instance; its connection is the session it has. -/
structure PgLeaderElection where
  connection : Option Session := none
  leader : Bool := false
  lastError : String := ""
  nextConnectAttempt : Nat := 0

/-- What the methods do with the members of their instance and with its session. -/
inductive ElectionCall where
  | hasConnection
  | healthy
  | connectionError
  | execTryLock
  | execUnlock
  | ping
  | connect
  | reset
  | leader
  | setLeader (leader : Bool)
  | lastError
  | setLastError (message : String)
  | now
  | nextConnectAttempt
  | setNextConnectAttempt (time : Nat)

/-- The rows of a query, by the value in their first column. -/
abbrev Rows := List String

abbrev ElectionCall.Reply : ElectionCall → Type
  | .hasConnection => Bool
  | .healthy => Bool
  | .connectionError => String
  | .execTryLock => Result Rows
  | .execUnlock => Result Unit
  | .ping => Result Unit
  | .connect => Result Unit
  | .reset => Unit
  | .leader => Bool
  | .setLeader _ => Unit
  | .lastError => String
  | .setLastError _ => Unit
  | .now => Nat
  | .nextConnectAttempt => Nat
  | .setNextConnectAttempt _ => Unit

abbrev election : Interface where
  Op := ElectionCall
  Reply := ElectionCall.Reply

abbrev ask (call : ElectionCall) : Program election call.Reply :=
  Program.perform (I := election) call

def annotate (e : Error) (what : String) : Error := { e with message := what ++ "：" ++ e.message }

/-- `kReconnectCooldown`, in milliseconds. -/
def reconnectCooldown : Nat := 1000

variable (lockKey : String)

def tryAcquire : Program election (Result Bool) := do
  if ← ask .hasConnection then
    match ← ask .execTryLock with
    | .error e =>
      ask (.setLastError e.message)
      return .error (annotate e ("获取 PG advisory lock 失败（lock_key=" ++ lockKey ++ "）"))
    | .ok [] =>
      return .error (err .internal ("pg_try_advisory_lock 没有返回行（lock_key=" ++ lockKey ++ "）"))
    | .ok (value :: _) =>
      ask (.setLeader (value == "t" || value == "true"))
      return .ok (← ask .leader)
  else
    let lastError ← ask .lastError
    return .error (err .unavailable ("leader election 锁连接不可用：" ++
      (if lastError = "" then "连接未建立" else lastError)))

def release : Program election (Result Unit) := do
  if ← ask .hasConnection then
    ask (.setLeader false)
    match ← ask .execUnlock with
    | .error e =>
      ask (.setLastError e.message)
      return .error (annotate e "释放 PG advisory lock 失败")
    | .ok _ => return .ok ()
  else
    ask (.setLeader false)
    return .ok ()

/-- `connection_ != nullptr && connection_->Healthy()` -/
def connected : Program election Bool := do
  if ← ask .hasConnection then ask .healthy else return false

def ensureConnection : Program election Bool := do
  if ← connected then return true
  else
    let now ← ask .now
    if now < (← ask .nextConnectAttempt) then return false
    else
      ask (.setNextConnectAttempt (now + reconnectCooldown))
      ask .reset
      ask (.setLeader false)
      match ← ask .connect with
      | .error e =>
        ask (.setLastError e.message)
        return false
      | .ok _ =>
        ask (.setLastError "")
        return true

/-- The session is ended and the instance is not the leader any more. -/
def stepDown (message : String) : Program election Bool := do
  ask (.setLastError message)
  ask .reset
  ask (.setLeader false)
  return false

def isLeader : Program election Bool := do
  if !(← ensureConnection) then return false
  else if !(← ask .leader) then
    match ← tryAcquire lockKey with
    | .error e =>
      ask (.setLastError e.message)
      return false
    | .ok acquired => return acquired
  else if !(← ask .healthy) then
    stepDown (← ask .connectionError)
  else
    match ← ask .ping with
    | .error e => stepDown e.message
    | .ok _ => return true

/-- The connection of an instance that is opened. -/
def openElection : Program election (Result Unit) := do
  match ← ask .connect with
  | .error e => return .error (annotate e "建立 leader election 锁连接失败")
  | .ok _ => return .ok ()

/-! ## The cluster -/

inductive Method where
  | «open»
  | tryAcquire
  | release
  | isLeader

abbrev Method.Answer : Method → Type
  | .open => Result Unit
  | .tryAcquire => Result Bool
  | .release => Result Unit
  | .isLeader => Bool

def Method.body : (m : Method) → Program election m.Answer
  | .open => openElection
  | .tryAcquire => Postgres.tryAcquire lockKey
  | .release => Postgres.release
  | .isLeader => Postgres.isLeader lockKey

structure Cluster (ι : Type) where
  server : Server := {}
  members : ι → PgLeaderElection := fun _ => {}
  now : Nat := 0

section Cluster
variable {ι : Type} [DecidableEq ι]

def Cluster.setMember (σ : Cluster ι) (i : ι) (member : PgLeaderElection) : Cluster ι :=
  { σ with members := Function.update σ.members i member }

def Cluster.setServer (σ : Cluster ι) (server : Server) : Cluster ι := { σ with server }

/-- What an operation of an instance does. A statement answers only in a live session; one
that fails may have taken effect. The server may notice later that a session was dropped. -/
def Exec (i : ι) (σ : Cluster ι) : (op : ElectionCall) → op.Reply → Cluster ι → Prop
  | .hasConnection, r, σ' => r = (σ.members i).connection.isSome ∧ σ' = σ
  | .healthy, _, σ' => σ' = σ
  | .connectionError, _, σ' => σ' = σ
  | .execTryLock, .ok rows, σ' => ∃ t, (σ.members i).connection = some t ∧
      σ.server.live t = true ∧ rows = [if (σ.server.tryLock t).1 then "t" else "f"] ∧
        σ' = σ.setServer (σ.server.tryLock t).2
  | .execTryLock, .error _, σ' => ∃ t, (σ.members i).connection = some t ∧
      (σ' = σ ∨ σ.server.live t = true ∧ σ' = σ.setServer (σ.server.tryLock t).2)
  | .execUnlock, .ok _, σ' => ∃ t, (σ.members i).connection = some t ∧
      σ.server.live t = true ∧ σ' = σ.setServer (σ.server.unlock t)
  | .execUnlock, .error _, σ' => ∃ t, (σ.members i).connection = some t ∧
      (σ' = σ ∨ σ.server.live t = true ∧ σ' = σ.setServer (σ.server.unlock t))
  | .ping, .ok _, σ' => (∃ t, (σ.members i).connection = some t ∧ σ.server.live t = true) ∧ σ' = σ
  | .ping, .error _, σ' => σ' = σ
  | .connect, .ok _, σ' => (σ.members i).connection = none ∧
      σ' = (σ.setServer σ.server.connect).setMember i
        { σ.members i with connection := some σ.server.next }
  | .connect, .error _, σ' => σ' = σ
  | .reset, _, σ' =>
    match (σ.members i).connection with
    | none => σ' = σ
    | some t => ∃ server, (server = σ.server ∨ server = σ.server.finish t) ∧
        σ' = (σ.setServer server).setMember i { σ.members i with connection := none }
  | .leader, r, σ' => r = (σ.members i).leader ∧ σ' = σ
  | .setLeader leader, _, σ' => σ' = σ.setMember i { σ.members i with leader }
  | .lastError, r, σ' => r = (σ.members i).lastError ∧ σ' = σ
  | .setLastError message, _, σ' =>
    σ' = σ.setMember i { σ.members i with lastError := message }
  | .now, r, σ' => r = σ.now ∧ σ' = σ
  | .nextConnectAttempt, r, σ' => r = (σ.members i).nextConnectAttempt ∧ σ' = σ
  | .setNextConnectAttempt time, _, σ' =>
    σ' = σ.setMember i { σ.members i with nextConnectAttempt := time }

/-- A session dies, or time passes. -/
inductive Disturbs (σ : Cluster ι) : Cluster ι → Prop
  | dies (t : Session) : Disturbs σ (σ.setServer (σ.server.finish t))
  | passes (now : Nat) : σ.now ≤ now → Disturbs σ { σ with now }

/-- An instance is opened before it has a connection, and it is asked to take the lock only
while it is not the leader. -/
def Allowed (i : ι) (m : Method) (σ : Cluster ι) : Prop :=
  match m with
  | .open => (σ.members i).connection = none ∧ (σ.members i).leader = false
  | .tryAcquire => (σ.members i).leader = false
  | _ => True

/-- All instances on one database. -/
def cluster (ι : Type) [DecidableEq ι] :
    Component ι election (Cluster ι) Method Method.Answer where
  exec := Exec
  env := Disturbs
  body := Method.body lockKey
  allowed := Allowed

end Cluster

end FileService.Postgres
