import FileService.Postgres.LeaderElection

/-!
# The leader flag and the lock

What an instance knows is compared with what its own session has: whether it is
alive and how often it holds the lock. The other instances cannot change either.
-/
namespace FileService.Postgres
open FileService.Common FileService.Interaction

/-! ## What an instance sees -/

/-- The members of an instance, whether its session lives, and how often more than once the
session holds the lock, if it does. -/
structure View where
  member : PgLeaderElection
  live : Bool
  held : Option Nat

section View
variable {ι : Type}

def Server.heldBy (server : Server) (t : Session) : Option Nat :=
  match server.lock with
  | some (holder, again) => if holder = t then some again else none
  | none => none

def Cluster.view (σ : Cluster ι) (i : ι) : View where
  member := σ.members i
  live := (σ.members i).connection.any σ.server.live
  held := (σ.members i).connection.bind σ.server.heldBy

/-- The session has ended. -/
def View.dead (v : View) : View := { v with live := false, held := none }

def View.locked (v : View) : View := { v with held := some (v.held.elim 0 (· + 1)) }

def View.unlocked (v : View) : View :=
  { v with held := v.held.bind fun
    | 0 => none
    | again + 1 => some again }

/-- Sessions are not shared, and only a live session holds the lock. -/
structure WellFormed (σ : Cluster ι) : Prop where
  distinct : ∀ {i j t}, (σ.members i).connection = some t → (σ.members j).connection = some t → i = j
  known : ∀ {i t}, (σ.members i).connection = some t → t < σ.server.next
  alive : ∀ {t}, σ.server.live t = true → t < σ.server.next
  holder : ∀ {t again}, σ.server.lock = some (t, again) → σ.server.live t = true

/-- What an operation does to the view of its own instance. -/
def Own (v : View) : (op : ElectionCall) → op.Reply → View → Prop
  | .hasConnection, r, v' => (r = false → v.held = none) ∧ v' = v
  | .execTryLock, .ok rows, v' => rows = ["t"] ∧ v' = v.locked ∨ rows = ["f"] ∧ v.held = none ∧ v' = v
  | .execTryLock, .error _, v' => v' = v ∨ v' = v.locked
  | .execUnlock, .ok _, v' => v' = v.unlocked
  | .execUnlock, .error _, v' => v' = v ∨ v' = v.unlocked
  | .ping, .ok _, v' => v.live = true ∧ v' = v
  | .connect, .ok _, v' => ∃ t, v' = ⟨{ v.member with connection := some t }, true, none⟩
  | .reset, _, v' => v' = ⟨{ v.member with connection := none }, false, none⟩
  | .leader, r, v' => r = v.member.leader ∧ v' = v
  | .setLeader leader, _, v' => v' = { v with member := { v.member with leader } }
  | .setLastError message, _, v' => v' = { v with member := { v.member with lastError := message } }
  | .setNextConnectAttempt time, _, v' =>
    v' = { v with member := { v.member with nextConnectAttempt := time } }
  | _, _, v' => v' = v

end View

/-! ## The database, session by session -/

section Server
variable {server : Server} {t u : Session}

theorem heldBy_tryLock_of_ne (h : u ≠ t) : (server.tryLock t).2.heldBy u = server.heldBy u := by
  unfold Server.tryLock
  cases hlock : server.lock with
  | none => simp [Server.heldBy, hlock, Ne.symm h]
  | some held =>
    by_cases ht : held.1 = t
    · simp [Server.heldBy, hlock, ht, Ne.symm h]
    · simp [ht]

@[simp] theorem live_tryLock : (server.tryLock t).2.live = server.live := by
  unfold Server.tryLock
  cases server.lock with
  | none => rfl
  | some held => by_cases ht : held.1 = t <;> simp [ht]

@[simp] theorem next_tryLock : (server.tryLock t).2.next = server.next := by
  unfold Server.tryLock
  cases server.lock with
  | none => rfl
  | some held => by_cases ht : held.1 = t <;> simp [ht]

/-- The session takes the lock once more, or another session has it. -/
theorem tryLock_cases (server : Server) (t : Session) :
    (server.tryLock t).1 = true ∧
        (server.tryLock t).2.lock = some (t, (server.heldBy t).elim 0 (· + 1)) ∨
      (server.tryLock t).1 = false ∧ server.heldBy t = none ∧ (server.tryLock t).2 = server := by
  unfold Server.tryLock Server.heldBy
  cases server.lock with
  | none => simp
  | some held => by_cases ht : held.1 = t <;> simp [ht]

theorem heldBy_unlock_of_ne (h : u ≠ t) : (server.unlock t).heldBy u = server.heldBy u := by
  unfold Server.unlock
  cases hlock : server.lock with
  | none => simp [Server.heldBy, hlock]
  | some held =>
    obtain ⟨holder, again⟩ := held
    by_cases ht : holder = t
    · cases again <;> simp [Server.heldBy, hlock, ht, Ne.symm h]
    · simp [Server.heldBy, hlock, ht]

theorem heldBy_unlock : (server.unlock t).heldBy t = (server.heldBy t).bind fun
    | 0 => none
    | again + 1 => some again := by
  unfold Server.unlock
  cases hlock : server.lock with
  | none => simp [Server.heldBy, hlock]
  | some held =>
    obtain ⟨holder, again⟩ := held
    by_cases ht : holder = t
    · cases again <;> simp [Server.heldBy, hlock, ht]
    · simp [Server.heldBy, hlock, ht]

@[simp] theorem live_unlock : (server.unlock t).live = server.live := by
  unfold Server.unlock
  cases server.lock with
  | none => rfl
  | some held => by_cases ht : held.1 = t <;> simp [ht]

@[simp] theorem next_unlock : (server.unlock t).next = server.next := by
  unfold Server.unlock
  cases server.lock with
  | none => rfl
  | some held => by_cases ht : held.1 = t <;> simp [ht]

theorem lock_of_unlock {again : Nat} (h : (server.unlock t).lock = some (u, again)) :
    ∃ before, server.lock = some (u, before) := by
  unfold Server.unlock at h
  cases hlock : server.lock with
  | none => simp [hlock] at h
  | some held =>
    obtain ⟨holder, before⟩ := held
    by_cases ht : holder = t
    · cases before <;> simp_all
    · simp_all

theorem heldBy_finish_of_ne (h : u ≠ t) : (server.finish t).heldBy u = server.heldBy u := by
  cases hlock : server.lock with
  | none => simp [Server.finish, Server.heldBy, hlock]
  | some held =>
    by_cases ht : held.1 = t
    · simp [Server.finish, Server.heldBy, hlock, Option.filter, ht, Ne.symm h]
    · simp [Server.finish, Server.heldBy, hlock, Option.filter, ht]

theorem heldBy_finish : (server.finish t).heldBy t = none := by
  cases hlock : server.lock with
  | none => simp [Server.finish, Server.heldBy, hlock]
  | some held =>
    by_cases ht : held.1 = t <;> simp [Server.finish, Server.heldBy, hlock, Option.filter, ht]

end Server

/-! ## What an operation does -/

section Operations
variable {ι : Type} {σ σ' : Cluster ι} {i j : ι} {server : Server} {t : Session}

theorem view_congr (hmember : σ'.members j = σ.members j)
    (hlive : ∀ t, (σ.members j).connection = some t → σ'.server.live t = σ.server.live t)
    (hheld : ∀ t, (σ.members j).connection = some t → σ'.server.heldBy t = σ.server.heldBy t) :
    σ'.view j = σ.view j := by
  unfold Cluster.view
  rw [hmember]
  cases hconnection : (σ.members j).connection with
  | none => rfl
  | some t => simp [hlive t hconnection, hheld t hconnection]

/-- A member of the instance changes, not its connection. -/
theorem setMember_effect [DecidableEq ι] (hwf : WellFormed σ) {member : PgLeaderElection}
    (hmember : member.connection = (σ.members i).connection) :
    WellFormed (σ.setMember i member) ∧
      (σ.setMember i member).view i = { σ.view i with member } ∧
        ∀ j, j ≠ i → (σ.setMember i member).view j = σ.view j := by
  have hconnections : ∀ j, ((σ.setMember i member).members j).connection =
      (σ.members j).connection := by
    intro j
    by_cases hj : j = i
    · subst hj
      simp [Cluster.setMember, hmember]
    · simp [Cluster.setMember, hj]
  refine ⟨?_, ?_, fun j hj => ?_⟩
  · constructor
    · intro j k t hk hl
      exact hwf.distinct (hconnections j ▸ hk) (hconnections k ▸ hl)
    · intro j t hk
      exact hwf.known (hconnections j ▸ hk)
    · exact hwf.alive
    · exact hwf.holder
  · simp [Cluster.view, Cluster.setMember, hmember]
  · simp [Cluster.view, Cluster.setMember, hj]

/-- A statement on the session of the instance. -/
theorem setServer_effect (hwf : WellFormed σ) (hconnection : (σ.members i).connection = some t)
    (hlive : server.live = σ.server.live) (hnext : server.next = σ.server.next)
    (hholder : ∀ {u again}, server.lock = some (u, again) → σ.server.live u = true)
    (hheld : ∀ u, u ≠ t → server.heldBy u = σ.server.heldBy u) :
    WellFormed (σ.setServer server) ∧
      (σ.setServer server).view i = { σ.view i with held := server.heldBy t } ∧
        ∀ j, j ≠ i → (σ.setServer server).view j = σ.view j := by
  refine ⟨?_, ?_, fun j hj => ?_⟩
  · constructor
    · exact hwf.distinct
    · intro j u hu
      simpa [Cluster.setServer, hnext] using hwf.known hu
    · intro u hu
      simpa [Cluster.setServer, hnext] using hwf.alive (by simpa [Cluster.setServer, hlive] using hu)
    · intro u again hu
      simpa [Cluster.setServer, hlive] using hholder hu
  · simp [Cluster.view, Cluster.setServer, hconnection, hlive]
  · apply view_congr
    · rfl
    · intro u _
      simp [Cluster.setServer, hlive]
    · intro u hu
      apply hheld
      rintro rfl
      exact hj (hwf.distinct hu hconnection)

theorem tryLock_effect (hwf : WellFormed σ) (hconnection : (σ.members i).connection = some t)
    (hlive : σ.server.live t = true) :
    WellFormed (σ.setServer (σ.server.tryLock t).2) ∧
      ((σ.server.tryLock t).1 = true ∧
          (σ.setServer (σ.server.tryLock t).2).view i = (σ.view i).locked ∨
        (σ.server.tryLock t).1 = false ∧ (σ.view i).held = none ∧
          (σ.setServer (σ.server.tryLock t).2).view i = σ.view i) ∧
      ∀ j, j ≠ i → (σ.setServer (σ.server.tryLock t).2).view j = σ.view j := by
  have hheld : (σ.view i).held = σ.server.heldBy t := by simp [Cluster.view, hconnection]
  have hholder : ∀ {u again}, (σ.server.tryLock t).2.lock = some (u, again) →
      σ.server.live u = true := by
    intro u again hu
    rcases tryLock_cases σ.server t with ⟨-, hlock⟩ | ⟨-, -, hsame⟩
    · rw [hlock] at hu
      obtain ⟨rfl, -⟩ := Prod.mk.inj (Option.some.inj hu)
      exact hlive
    · exact hwf.holder (hsame ▸ hu)
  obtain ⟨hwf', hview, hothers⟩ := setServer_effect hwf hconnection live_tryLock next_tryLock
    hholder fun u hu => heldBy_tryLock_of_ne hu
  refine ⟨hwf', ?_, hothers⟩
  rcases tryLock_cases σ.server t with ⟨hgranted, hlock⟩ | ⟨hrefused, hnone, hsame⟩
  · left
    refine ⟨hgranted, ?_⟩
    rw [hview, View.locked, hheld]
    simp [Server.heldBy, hlock]
  · right
    refine ⟨hrefused, hheld.trans hnone, ?_⟩
    rw [hsame]
    rfl

theorem unlock_effect (hwf : WellFormed σ) (hconnection : (σ.members i).connection = some t) :
    WellFormed (σ.setServer (σ.server.unlock t)) ∧
      (σ.setServer (σ.server.unlock t)).view i = (σ.view i).unlocked ∧
        ∀ j, j ≠ i → (σ.setServer (σ.server.unlock t)).view j = σ.view j := by
  have hheld : (σ.view i).held = σ.server.heldBy t := by simp [Cluster.view, hconnection]
  have hholder : ∀ {u again}, (σ.server.unlock t).lock = some (u, again) →
      σ.server.live u = true := by
    intro u again hu
    obtain ⟨before, hbefore⟩ := lock_of_unlock hu
    exact hwf.holder hbefore
  obtain ⟨hwf', hview, hothers⟩ := setServer_effect hwf hconnection live_unlock next_unlock
    hholder fun u hu => heldBy_unlock_of_ne hu
  refine ⟨hwf', ?_, hothers⟩
  rw [hview, View.unlocked, hheld, heldBy_unlock]

/-- A session ends. -/
theorem finish_effect (hwf : WellFormed σ) (t : Session) :
    WellFormed (σ.setServer (σ.server.finish t)) ∧
      ∀ j, (σ.setServer (σ.server.finish t)).view j =
        if (σ.members j).connection = some t then (σ.view j).dead else σ.view j := by
  refine ⟨?_, fun j => ?_⟩
  · constructor
    · exact hwf.distinct
    · exact hwf.known
    · intro u hu
      by_cases hut : u = t
      · subst hut
        simp [Cluster.setServer, Server.finish] at hu
      · exact hwf.alive (by simpa [Cluster.setServer, Server.finish, hut] using hu)
    · intro u again hu
      simp only [Cluster.setServer, Server.finish, Option.filter_eq_some_iff] at hu
      obtain ⟨hlock, hne⟩ := hu
      have hut : u ≠ t := by simpa using hne
      simpa [Cluster.setServer, Server.finish, hut] using hwf.holder hlock
  · by_cases hj : (σ.members j).connection = some t
    · rw [if_pos hj]
      simp only [Cluster.view, Cluster.setServer, hj, View.dead, Option.bind_some, Option.any_some,
        heldBy_finish]
      simp [Server.finish]
    · rw [if_neg hj]
      apply view_congr
      · rfl
      · intro u hu
        have hut : u ≠ t := by
          rintro rfl
          exact hj hu
        simp [Cluster.setServer, Server.finish, hut]
      · intro u hu
        apply heldBy_finish_of_ne
        rintro rfl
        exact hj hu

variable [DecidableEq ι]

theorem connect_effect (hwf : WellFormed σ) :
    let σ' := (σ.setServer σ.server.connect).setMember i
      { σ.members i with connection := some σ.server.next }
    WellFormed σ' ∧
      σ'.view i = ⟨{ σ.members i with connection := some σ.server.next }, true, none⟩ ∧
        ∀ j, j ≠ i → σ'.view j = σ.view j := by
  have hfresh : σ.server.heldBy σ.server.next = none := by
    cases hlock : σ.server.lock with
    | none => simp [Server.heldBy, hlock]
    | some held =>
      obtain ⟨holder, again⟩ := held
      have hlt : holder < σ.server.next := hwf.alive (hwf.holder hlock)
      simp [Server.heldBy, hlock, hlt.ne]
  refine ⟨?_, ?_, fun j hj => ?_⟩
  · constructor
    · intro j k t hj hk
      by_cases hji : j = i <;> by_cases hki : k = i
      · rw [hji, hki]
      · subst hji
        simp only [Cluster.setMember, Cluster.setServer, Function.update_self, Option.some.injEq,
          Function.update_of_ne hki] at hj hk
        exact absurd (hwf.known hk) (by simp [hj])
      · subst hki
        simp only [Cluster.setMember, Cluster.setServer, Function.update_self, Option.some.injEq,
          Function.update_of_ne hji] at hj hk
        exact absurd (hwf.known hj) (by simp [hk])
      · simp only [Cluster.setMember, Cluster.setServer, Function.update_of_ne hji,
          Function.update_of_ne hki] at hj hk
        exact hwf.distinct hj hk
    · intro j t hj
      by_cases hji : j = i
      · subst hji
        simp only [Cluster.setMember, Cluster.setServer, Function.update_self,
          Option.some.injEq] at hj
        simp [Cluster.setMember, Cluster.setServer, Server.connect, ← hj]
      · simp only [Cluster.setMember, Cluster.setServer, Function.update_of_ne hji] at hj
        exact Nat.lt_succ_of_lt (hwf.known hj)
    · intro t ht
      by_cases hnew : t = σ.server.next
      · simp [Cluster.setMember, Cluster.setServer, Server.connect, hnew]
      · simp only [Cluster.setMember, Cluster.setServer, Server.connect,
          Function.update_of_ne hnew] at ht
        exact Nat.lt_succ_of_lt (hwf.alive ht)
    · intro t again hlock
      have hheld : σ.server.lock = some (t, again) := hlock
      have hlive := hwf.holder hheld
      have hne : t ≠ σ.server.next := (hwf.alive hlive).ne
      simpa [Cluster.setMember, Cluster.setServer, Server.connect, hne] using hlive
  · have hheld : σ.server.connect.heldBy σ.server.next = none := hfresh
    simp [Cluster.view, Cluster.setMember, Cluster.setServer, hheld]
    simp [Server.connect]
  · apply view_congr
    · simp [Cluster.setMember, Cluster.setServer, hj]
    · intro t ht
      have hne : t ≠ σ.server.next := (hwf.known ht).ne
      simp [Cluster.setMember, Cluster.setServer, Server.connect, hne]
    · intro t _
      rfl

/-- The connection is dropped, whether or not the server notices at once. -/
theorem reset_effect (hwf : WellFormed σ) :
    WellFormed (σ.setMember i { σ.members i with connection := none }) ∧
      (σ.setMember i { σ.members i with connection := none }).view i =
        ⟨{ σ.members i with connection := none }, false, none⟩ ∧
      ∀ j, j ≠ i → (σ.setMember i { σ.members i with connection := none }).view j = σ.view j := by
  refine ⟨?_, ?_, fun j hj => ?_⟩
  · have hconnections : ∀ {j t}, ((σ.setMember i { σ.members i with connection := none }).members
        j).connection = some t → (σ.members j).connection = some t := by
      intro j t hj
      by_cases hji : j = i
      · subst hji
        simp [Cluster.setMember] at hj
      · simpa [Cluster.setMember, hji] using hj
    constructor
    · intro j k t hj hk
      exact hwf.distinct (hconnections hj) (hconnections hk)
    · intro j t hj
      exact hwf.known (hconnections hj)
    · exact hwf.alive
    · exact hwf.holder
  · simp [Cluster.view, Cluster.setMember]
  · simp [Cluster.view, Cluster.setMember, hj]

/-- An operation does to the view of its instance what it should, and nothing to the others. -/
theorem exec_own {op : ElectionCall} {r : op.Reply} (hwf : WellFormed σ) (h : Exec i σ op r σ') :
    WellFormed σ' ∧ Own (σ.view i) op r (σ'.view i) ∧ ∀ j, j ≠ i → σ'.view j = σ.view j := by
  have hread : σ' = σ → WellFormed σ' ∧ σ'.view i = σ.view i ∧
      ∀ j, j ≠ i → σ'.view j = σ.view j := by
    rintro rfl
    exact ⟨hwf, rfl, fun _ _ => rfl⟩
  cases op with
  | hasConnection =>
    obtain ⟨rfl, rfl⟩ := h
    refine ⟨hwf, ⟨?_, rfl⟩, fun _ _ => rfl⟩
    intro hnone
    simp only [Option.isSome_eq_false_iff, Option.isNone_iff_eq_none] at hnone
    simp [Cluster.view, hnone]
  | healthy => exact hread h
  | connectionError => exact hread h
  | execTryLock =>
    cases r with
    | ok rows =>
      obtain ⟨t, hconnection, hlive, rfl, rfl⟩ := h
      obtain ⟨hwf', hview, hothers⟩ := tryLock_effect hwf hconnection hlive
      refine ⟨hwf', ?_, hothers⟩
      rcases hview with ⟨hgranted, hview⟩ | ⟨hrefused, hnone, hview⟩
      · exact .inl ⟨by simp [hgranted], hview⟩
      · exact .inr ⟨by simp [hrefused], hnone, hview⟩
    | error e =>
      obtain ⟨t, hconnection, rfl | ⟨hlive, rfl⟩⟩ := h
      · exact ⟨hwf, .inl rfl, fun _ _ => rfl⟩
      · obtain ⟨hwf', hview, hothers⟩ := tryLock_effect hwf hconnection hlive
        refine ⟨hwf', ?_, hothers⟩
        rcases hview with ⟨-, hview⟩ | ⟨-, -, hview⟩
        · exact .inr hview
        · exact .inl hview
  | execUnlock =>
    cases r with
    | ok _ =>
      obtain ⟨t, hconnection, -, rfl⟩ := h
      exact unlock_effect hwf hconnection
    | error e =>
      obtain ⟨t, hconnection, rfl | ⟨-, rfl⟩⟩ := h
      · exact ⟨hwf, .inl rfl, fun _ _ => rfl⟩
      · obtain ⟨hwf', hview, hothers⟩ := unlock_effect hwf hconnection
        exact ⟨hwf', .inr hview, hothers⟩
  | ping =>
    cases r with
    | ok _ =>
      obtain ⟨⟨t, hconnection, hlive⟩, rfl⟩ := h
      exact ⟨hwf, ⟨by simp [Cluster.view, hconnection, hlive], rfl⟩, fun _ _ => rfl⟩
    | error e => exact hread h
  | connect =>
    cases r with
    | ok _ =>
      obtain ⟨-, rfl⟩ := h
      obtain ⟨hwf', hview, hothers⟩ := connect_effect (i := i) hwf
      exact ⟨hwf', ⟨_, hview⟩, hothers⟩
    | error e => exact hread h
  | reset =>
    simp only [Exec] at h
    cases hconnection : (σ.members i).connection with
    | none =>
      rw [hconnection] at h
      subst h
      refine ⟨hwf, ?_, fun _ _ => rfl⟩
      simp [Own, Cluster.view, hconnection]
      simp [← hconnection]
    | some t =>
      rw [hconnection] at h
      obtain ⟨server, rfl | rfl, rfl⟩ := h
      · exact reset_effect hwf
      · obtain ⟨hended, hviews⟩ := finish_effect hwf t
        obtain ⟨hwf', hview, hothers⟩ := reset_effect (i := i) hended
        refine ⟨hwf', hview, fun j hj => ?_⟩
        have hne : (σ.members j).connection ≠ some t := by
          intro hsame
          exact hj (hwf.distinct hsame hconnection)
        have hkept := hviews j
        rw [if_neg hne] at hkept
        exact (hothers j hj).trans hkept
  | leader =>
    obtain ⟨rfl, rfl⟩ := h
    exact ⟨hwf, ⟨rfl, rfl⟩, fun _ _ => rfl⟩
  | setLeader leader =>
    obtain rfl : σ' = _ := h
    exact setMember_effect hwf rfl
  | lastError => exact hread h.2
  | setLastError message =>
    obtain rfl : σ' = _ := h
    exact setMember_effect hwf rfl
  | now => exact hread h.2
  | nextConnectAttempt => exact hread h.2
  | setNextConnectAttempt time =>
    obtain rfl : σ' = _ := h
    exact setMember_effect hwf rfl

end Operations

end FileService.Postgres
