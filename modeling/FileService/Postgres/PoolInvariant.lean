import FileService.Postgres.ConnectionPool

/-!
# The invariant of the connection pool

Every step keeps the account of the connections. That no borrower is left
waiting follows from another count: while somebody waits, there are at least as
many wake-ups under way as connections and places that are free.
-/
namespace FileService.Postgres
open FileService.Common

section Accounts
variable {ι η : Type} [DecidableEq ι] [DecidableEq η] {maxConnections : Nat} {s s' : PoolState ι η}
variable {x : η} {c : Conn} {dropped rest : List Conn}

omit [DecidableEq ι] [DecidableEq η] in
theorem Accounted.idle_alive (h : Accounted maxConnections s) (hc : c ∈ s.pool.idle) : c ∈ s.alive :=
  (h.owned c).mpr (.inl hc)

omit [DecidableEq ι] [DecidableEq η] in
/-- The borrowers are no part of the account. -/
theorem Accounted.congr (h : Accounted maxConnections s) (hpool : s'.pool = s.pool)
    (hhandles : s'.handles = s.handles) (halive : s'.alive = s.alive) :
    Accounted maxConnections s' := by
  constructor <;> simp only [hpool, hhandles, halive]
  · exact h.limit
  · exact h.nodup
  · exact h.owned
  · exact h.apart
  · exact h.single
  · exact h.idle_le
  · exact h.live_le
  · exact h.live_eq

omit [DecidableEq ι] [DecidableEq η] in
/-- Broken idle connections are dropped. -/
theorem Accounted.drop (h : Accounted maxConnections s) (hidle : s.pool.idle = dropped ++ rest)
    (woken : Finset ι) :
    Accounted maxConnections
      { s with
        pool := ⟨maxConnections, rest, s.pool.live - dropped.length⟩
        alive := s.alive \ dropped.toFinset
        woken } := by
  have hnodup := hidle ▸ h.nodup
  have hapart : ∀ d ∈ rest, d ∉ dropped := by
    intro d hrest hdropped
    exact (List.disjoint_of_nodup_append hnodup) hdropped hrest
  have hcard : (s.alive \ dropped.toFinset).card = s.pool.live - dropped.length := by
    have hsubset : dropped.toFinset ⊆ s.alive := by
      intro d hd
      apply h.idle_alive
      rw [hidle]
      exact List.mem_append_left _ (List.mem_toFinset.mp hd)
    rw [Finset.card_sdiff_of_subset hsubset, h.live_eq,
      List.toFinset_card_of_nodup hnodup.of_append_left]
  have hlength := h.idle_le
  rw [hidle, List.length_append] at hlength
  constructor
  · rfl
  · exact hnodup.of_append_right
  · intro d
    simp only [Finset.mem_sdiff, List.mem_toFinset]
    constructor
    · rintro ⟨halive, hkept⟩
      rcases (h.owned d).mp halive with hd | hheld
      · rw [hidle] at hd
        exact .inl ((List.mem_append.mp hd).resolve_left hkept)
      · exact .inr hheld
    · rintro (hd | ⟨y, hy⟩)
      · refine ⟨h.idle_alive ?_, hapart d hd⟩
        rw [hidle]
        exact List.mem_append_right _ hd
      · refine ⟨(h.owned d).mpr (.inr ⟨y, hy⟩), fun hd => h.apart hy ?_⟩
        rw [hidle]
        exact List.mem_append_left _ hd
  · intro y d hy hd
    apply h.apart hy
    rw [hidle]
    exact List.mem_append_right _ hd
  · exact h.single
  · dsimp only
    omega
  · exact (Nat.sub_le _ _).trans h.live_le
  · exact hcard.symm

/-- A handle receives a connection that no other handle holds: who holds what after it. -/
theorem held_update {handles : η → Option Conn} {y : η} {d : Conn}
    (hy : Function.update handles x (some c) y = some d) :
    y = x ∧ d = c ∨ y ≠ x ∧ handles y = some d := by
  by_cases hyx : y = x
  · subst hyx
    rw [Function.update_self] at hy
    exact .inl ⟨rfl, (Option.some.inj hy).symm⟩
  · rw [Function.update_of_ne hyx] at hy
    exact .inr ⟨hyx, hy⟩

omit [DecidableEq ι] in
theorem single_update {handles : η → Option Conn} {y z : η} {d : Conn}
    (hsingle : ∀ {y z d}, handles y = some d → handles z = some d → y = z)
    (hkept : ∀ {y d}, handles y = some d → d ≠ c)
    (hy : Function.update handles x (some c) y = some d)
    (hz : Function.update handles x (some c) z = some d) : y = z := by
  rcases held_update hy with ⟨hyx, hdc⟩ | ⟨-, hheld⟩
  · rcases held_update hz with ⟨hzx, -⟩ | ⟨-, hheld⟩
    · rw [hyx, hzx]
    · exact absurd hdc (hkept hheld)
  · rcases held_update hz with ⟨-, hdc⟩ | ⟨-, hheld'⟩
    · exact absurd hdc (hkept hheld)
    · exact hsingle hheld hheld'

/-- A handle gives its connection away: who holds what after it. -/
theorem held_clear {handles : η → Option Conn} {y : η} {d : Conn}
    (hy : Function.update handles x none y = some d) : y ≠ x ∧ handles y = some d := by
  by_cases hyx : y = x
  · subst hyx
    rw [Function.update_self] at hy
    cases hy
  · rw [Function.update_of_ne hyx] at hy
    exact ⟨hyx, hy⟩

omit [DecidableEq ι] in
/-- An idle connection goes to a handle. -/
theorem Accounted.lend (h : Accounted maxConnections s) (hidle : s.pool.idle = c :: rest)
    (hx : s.handles x = none) (healthy : Conn → Bool) :
    Accounted maxConnections
      { s with
        pool := { s.pool with idle := rest }
        handles := Function.update s.handles x (some c)
        healthy } := by
  have hnodup := hidle ▸ h.nodup
  obtain ⟨hfirst, hrest⟩ := List.nodup_cons.mp hnodup
  have hkept : ∀ {y d}, s.handles y = some d → d ≠ c := by
    rintro y d hy rfl
    exact h.apart hy (hidle ▸ List.mem_cons_self)
  constructor
  · exact h.limit
  · exact hrest
  · intro d
    constructor
    · intro halive
      rcases (h.owned d).mp halive with hd | ⟨y, hy⟩
      · rw [hidle] at hd
        rcases List.mem_cons.mp hd with rfl | hd
        · exact .inr ⟨x, Function.update_self ..⟩
        · exact .inl hd
      · have hyx : y ≠ x := by
          rintro rfl
          rw [hx] at hy
          cases hy
        exact .inr ⟨y, (Function.update_of_ne hyx _ _).trans hy⟩
    · rintro (hd | ⟨y, hy⟩)
      · exact h.idle_alive (hidle ▸ List.mem_cons_of_mem _ hd)
      · rcases held_update hy with ⟨-, rfl⟩ | ⟨-, hheld⟩
        · exact h.idle_alive (hidle ▸ List.mem_cons_self)
        · exact (h.owned d).mpr (.inr ⟨y, hheld⟩)
  · intro y d hy hd
    rcases held_update hy with ⟨-, rfl⟩ | ⟨-, hheld⟩
    · exact hfirst hd
    · exact h.apart hheld (hidle ▸ List.mem_cons_of_mem _ hd)
  · intro y z d
    exact single_update h.single hkept
  · have hlength := h.idle_le
    rw [hidle, List.length_cons] at hlength
    dsimp only
    omega
  · exact h.live_le
  · exact h.live_eq

omit [DecidableEq ι] in
/-- A connection that was opened goes to a handle. -/
theorem Accounted.opened (h : Accounted maxConnections s) (hc : c ∉ s.alive)
    (hx : s.handles x = none) (hroom : s.pool.live < maxConnections) (healthy : Conn → Bool) :
    Accounted maxConnections
      { s with
        pool := { s.pool with live := s.pool.live + 1 }
        handles := Function.update s.handles x (some c)
        healthy
        alive := insert c s.alive } := by
  have hkept : ∀ {y d}, s.handles y = some d → d ≠ c := by
    rintro y d hy rfl
    exact hc ((h.owned d).mpr (.inr ⟨y, hy⟩))
  constructor
  · exact h.limit
  · exact h.nodup
  · intro d
    constructor
    · intro halive
      rcases Finset.mem_insert.mp halive with rfl | halive
      · exact .inr ⟨x, Function.update_self ..⟩
      · rcases (h.owned d).mp halive with hd | ⟨y, hy⟩
        · exact .inl hd
        · have hyx : y ≠ x := by
            rintro rfl
            rw [hx] at hy
            cases hy
          exact .inr ⟨y, (Function.update_of_ne hyx _ _).trans hy⟩
    · rintro (hd | ⟨y, hy⟩)
      · exact Finset.mem_insert_of_mem (h.idle_alive hd)
      · rcases held_update hy with ⟨-, rfl⟩ | ⟨-, hheld⟩
        · exact Finset.mem_insert_self ..
        · exact Finset.mem_insert_of_mem ((h.owned d).mpr (.inr ⟨y, hheld⟩))
  · intro y d hy hd
    rcases held_update hy with ⟨-, rfl⟩ | ⟨-, hheld⟩
    · exact hc (h.idle_alive hd)
    · exact h.apart hheld hd
  · intro y z d
    exact single_update h.single hkept
  · exact h.idle_le.trans (Nat.le_succ _)
  · exact hroom
  · rw [Finset.card_insert_of_notMem hc, h.live_eq]

omit [DecidableEq ι] in
/-- The connection of a handle becomes idle. -/
theorem Accounted.idles (h : Accounted maxConnections s) (hx : s.handles x = some c) :
    Accounted maxConnections
      { s with
        pool := { s.pool with idle := c :: s.pool.idle }
        handles := Function.update s.handles x none } := by
  have hkept : ∀ {y d}, y ≠ x → s.handles y = some d → d ≠ c := by
    rintro y d hyx hy rfl
    exact hyx (h.single hy hx)
  constructor
  · exact h.limit
  · exact List.nodup_cons.mpr ⟨h.apart hx, h.nodup⟩
  · intro d
    constructor
    · intro halive
      rcases (h.owned d).mp halive with hd | ⟨y, hy⟩
      · exact .inl (List.mem_cons_of_mem _ hd)
      · by_cases hyx : y = x
        · subst hyx
          rw [hx] at hy
          exact .inl (Option.some.inj hy ▸ List.mem_cons_self)
        · exact .inr ⟨y, (Function.update_of_ne hyx _ _).trans hy⟩
    · rintro (hd | ⟨y, hy⟩)
      · rcases List.mem_cons.mp hd with rfl | hidle
        · exact (h.owned d).mpr (.inr ⟨x, hx⟩)
        · exact h.idle_alive hidle
      · exact (h.owned d).mpr (.inr ⟨y, (held_clear hy).2⟩)
  · intro y d hy hd
    obtain ⟨hyx, hheld⟩ := held_clear hy
    rcases List.mem_cons.mp hd with hdc | hidle
    · exact hkept hyx hheld hdc
    · exact h.apart hheld hidle
  · intro y z d hy hz
    exact h.single (held_clear hy).2 (held_clear hz).2
  · have hsubset : (c :: s.pool.idle).toFinset ⊆ s.alive := by
      intro d hd
      rcases List.mem_cons.mp (List.mem_toFinset.mp hd) with rfl | hidle
      · exact (h.owned d).mpr (.inr ⟨x, hx⟩)
      · exact h.idle_alive hidle
    have hcard := Finset.card_le_card hsubset
    rw [List.toFinset_card_of_nodup (List.nodup_cons.mpr ⟨h.apart hx, h.nodup⟩),
      ← h.live_eq] at hcard
    exact hcard
  · exact h.live_le
  · exact h.live_eq

omit [DecidableEq ι] in
/-- The connection of a handle is broken and ends. -/
theorem Accounted.ended (h : Accounted maxConnections s) (hx : s.handles x = some c) :
    Accounted maxConnections
      { s with
        pool := { s.pool with live := if 0 < s.pool.live then s.pool.live - 1 else s.pool.live }
        handles := Function.update s.handles x none
        alive := s.alive.erase c } := by
  have halive : c ∈ s.alive := (h.owned c).mpr (.inr ⟨x, hx⟩)
  have hlive : 0 < s.pool.live := by
    rw [h.live_eq]
    exact Finset.card_pos.mpr ⟨c, halive⟩
  rw [if_pos hlive]
  constructor
  · exact h.limit
  · exact h.nodup
  · intro d
    rw [Finset.mem_erase]
    constructor
    · rintro ⟨hdc, hd⟩
      rcases (h.owned d).mp hd with hidle | ⟨y, hy⟩
      · exact .inl hidle
      · have hyx : y ≠ x := by
          rintro rfl
          rw [hx] at hy
          exact hdc (Option.some.inj hy).symm
        exact .inr ⟨y, (Function.update_of_ne hyx _ _).trans hy⟩
    · rintro (hidle | ⟨y, hy⟩)
      · refine ⟨?_, h.idle_alive hidle⟩
        rintro rfl
        exact h.apart hx hidle
      · obtain ⟨hyx, hheld⟩ := held_clear hy
        refine ⟨?_, (h.owned d).mpr (.inr ⟨y, hheld⟩)⟩
        rintro rfl
        exact hyx (h.single hheld hx)
  · intro y d hy
    exact h.apart (held_clear hy).2
  · intro y z d hy hz
    exact h.single (held_clear hy).2 (held_clear hz).2
  · have hsubset : s.pool.idle.toFinset ⊆ s.alive.erase c := by
      intro d hd
      have hidle := List.mem_toFinset.mp hd
      apply Finset.mem_erase_of_ne_of_mem _ (h.idle_alive hidle)
      rintro rfl
      exact h.apart hx hidle
    have hcard := Finset.card_le_card hsubset
    rw [List.toFinset_card_of_nodup h.nodup, Finset.card_erase_of_mem halive, ← h.live_eq] at hcard
    exact hcard
  · exact (Nat.sub_le _ _).trans h.live_le
  · rw [Finset.card_erase_of_mem halive, h.live_eq]

omit [DecidableEq ι] in
theorem Accounted.gaveBack (h : Accounted maxConnections s) (hx : s.handles x = some c) :
    Accounted maxConnections (s.gaveBack x c) := by
  unfold PoolState.gaveBack PgPool.giveBack
  by_cases hhealthy : s.healthy c = true
  · simp only [if_pos hhealthy]
    exact h.idles hx
  · simp only [if_neg hhealthy]
    exact h.ended hx

omit [DecidableEq ι] in
/-- A connection goes from one handle to an empty one. -/
theorem Accounted.moved {y : η} (h : Accounted maxConnections s) (hx : s.handles x = some c)
    (hy : s.handles y = none) :
    Accounted maxConnections
      { s with
        handles := Function.update (Function.update s.handles x none) y (some c) } := by
  have hkept : ∀ {z d}, Function.update s.handles x none z = some d → d ≠ c := by
    rintro z d hz rfl
    obtain ⟨hzx, hheld⟩ := held_clear hz
    exact hzx (h.single hheld hx)
  constructor
  · exact h.limit
  · exact h.nodup
  · intro d
    constructor
    · intro halive
      rcases (h.owned d).mp halive with hidle | ⟨z, hz⟩
      · exact .inl hidle
      · by_cases hdc : d = c
        · subst hdc
          exact .inr ⟨y, Function.update_self ..⟩
        · have hzx : z ≠ x := by
            rintro rfl
            rw [hx] at hz
            exact hdc (Option.some.inj hz).symm
          have hzy : z ≠ y := by
            rintro rfl
            rw [hy] at hz
            cases hz
          refine .inr ⟨z, ?_⟩
          dsimp only
          rw [Function.update_of_ne hzy, Function.update_of_ne hzx, hz]
    · rintro (hidle | ⟨z, hz⟩)
      · exact h.idle_alive hidle
      · rcases held_update hz with ⟨-, rfl⟩ | ⟨-, hheld⟩
        · exact (h.owned d).mpr (.inr ⟨x, hx⟩)
        · exact (h.owned d).mpr (.inr ⟨z, (held_clear hheld).2⟩)
  · intro z d hz
    rcases held_update hz with ⟨-, rfl⟩ | ⟨-, hheld⟩
    · exact h.apart hx
    · exact h.apart (held_clear hheld).2
  · intro z z' d
    apply single_update
    · intro u v e hu hv
      exact h.single (held_clear hu).2 (held_clear hv).2
    · exact hkept
  · exact h.idle_le
  · exact h.live_le
  · exact h.live_eq

/-- Every turn of a borrower keeps the account. -/
theorem Accounted.borrowed {i : ι} {r : Borrowed} {created : Result Conn}
    (h : Accounted maxConnections s) (hx : s.handles x = none)
    (hnew : ∀ c, created = .ok c → c ∉ s.alive)
    (hr : TurnCase maxConnections s.healthy created s.pool.idle s.pool.live r) :
    Accounted maxConnections (s.borrowed i x r) := by
  cases hr with
  | @reuse dropped rest c hidle _ hhealthy =>
    have hdropped := h.drop hidle (s.woken.erase i)
    have hlent := hdropped.lend rfl hx (Function.update s.healthy c true)
    have hc := hdropped.idle_alive List.mem_cons_self
    unfold PoolState.borrowed
    dsimp only
    rw [Finset.insert_eq_self.mpr hc]
    exact hlent
  | @connect c _ hroom hcreated =>
    have hdropped := h.drop (List.append_nil _).symm (s.woken.erase i)
    apply hdropped.opened _ hx hroom
    intro hc
    exact hnew c hcreated (Finset.mem_sdiff.mp hc).1
  | fail => exact h.drop (List.append_nil _).symm (s.woken.erase i)
  | wait => exact (h.drop (List.append_nil _).symm (s.woken.erase i)).congr rfl rfl rfl

/-- Every step keeps the account. -/
theorem Accounted.step {event : PoolEvent ι η} (h : Accounted maxConnections s)
    (hstep : PoolStep s event s') : Accounted maxConnections s' := by
  cases hstep with
  | borrow _ hx hnew =>
    apply h.borrowed hx hnew
    rw [← h.limit]
    exact borrowLoop_cases
  | giveBackAlone hx _ => exact h.gaveBack hx
  | giveBack hx _ => exact (h.gaveBack hx).congr rfl rfl rfl
  | move hx hy => exact h.moved hx hy
  | wakes _ => exact h.congr rfl rfl rfl
  | sickens => exact h.congr rfl rfl rfl

omit [DecidableEq ι] [DecidableEq η] in
theorem accounted_created (c : Conn) (hroom : 0 < maxConnections) :
    Accounted maxConnections (created maxConnections c : PoolState ι η) := by
  constructor <;> simp [created]
  exact hroom

/-- A connection that is taken from the pool was found healthy. -/
theorem lendsHealthy_of_step {event : PoolEvent ι η} (hstep : PoolStep s event s') :
    LendsHealthy s event := by
  rintro i x answer c rfl hends halive
  cases hstep with
  | borrow _ _ hnew =>
    have hturn : TurnCase s.pool.maxConnections s.healthy answer s.pool.idle s.pool.live
        (s.pool.borrow s.healthy answer) := borrowLoop_cases
    generalize s.pool.borrow s.healthy answer = r at hturn hends
    cases hturn with
    | reuse _ _ hhealthy => exact BorrowEnd.handed.inj hends ▸ hhealthy
    | connect _ _ hcreated => exact absurd halive (BorrowEnd.handed.inj hends ▸ hnew _ hcreated)
    | fail => cases hends
    | wait => cases hends

end Accounts

/-! ## Wake-ups -/

section WakeUps
variable {ι η : Type} [DecidableEq ι] [DecidableEq η] {maxConnections : Nat} {s s' : PoolState ι η}

/-- How many borrowers the pool could serve at once. -/
def PgPool.free (pool : PgPool) : Nat :=
  pool.maxConnections - pool.live + pool.idle.length

/-- While somebody waits, enough borrowers are woken for all that is free. -/
structure Awake (s : PoolState ι η) : Prop where
  apart : Disjoint s.waiting s.woken
  enough : s.waiting.Nonempty → s.pool.free ≤ s.woken.card

omit [DecidableEq η] in
/-- A wake-up pays for one more place. -/
theorem Awake.wake {pool : PgPool} {i : ι} (h : Awake s) (hi : i ∈ s.waiting)
    (hfree : pool.free ≤ s.pool.free + 1) : Awake ({ s with pool }.wake i) := by
  have hi' : i ∉ s.woken := Finset.disjoint_left.mp h.apart hi
  constructor
  · rw [Finset.disjoint_left]
    intro j hj hwoken
    obtain ⟨hji, hj⟩ := Finset.mem_erase.mp hj
    rcases Finset.mem_insert.mp hwoken with hj' | hj'
    · exact hji hj'
    · exact Finset.disjoint_left.mp h.apart hj hj'
  · intro _
    have henough := h.enough ⟨i, hi⟩
    dsimp only [PoolState.wake]
    rw [Finset.card_insert_of_notMem hi']
    omega

omit [DecidableEq η] in
/-- A borrower that is served or gives up takes no more than its own wake-up. -/
theorem Awake.leave {i : ι} (h : Awake s) (hs : s'.waiting = s.waiting)
    (hwoken : s'.woken = s.woken.erase i)
    (hfree : s.waiting.Nonempty → s'.pool.free + 1 ≤ s.pool.free ∨
      i ∉ s.woken ∧ s'.pool.free ≤ s.pool.free) : Awake s' := by
  constructor
  · rw [hs, hwoken]
    exact h.apart.mono_right (Finset.erase_subset ..)
  · intro hwaiting
    rw [hs] at hwaiting
    have henough := h.enough hwaiting
    rw [hwoken]
    rcases hfree hwaiting with hless | ⟨hi, hle⟩
    · have herase := Finset.pred_card_le_card_erase (s := s.woken) (a := i)
      omega
    · rw [Finset.erase_eq_of_notMem hi]
      omega

/-- Every turn of a borrower that keeps the wake-ups keeps enough of them. -/
theorem Awake.borrowed {i : ι} {x : η} {answer : Result Conn} (hs : Accounted maxConnections s)
    (h : Awake s) (hkeeps : KeepsWakeUps s (.borrow i x answer)) :
    Awake (s.borrowed i x (s.pool.borrow s.healthy answer)) := by
  have hturn : TurnCase s.pool.maxConnections s.healthy answer s.pool.idle s.pool.live
      (s.pool.borrow s.healthy answer) := borrowLoop_cases
  have hlive := hs.live_le
  have hidle := hs.idle_le
  have hlimit := hs.limit
  generalize s.pool.borrow s.healthy answer = r at hturn
  cases hturn with
  | @reuse dropped rest c hlist _ _ =>
    apply h.leave (i := i)
    · rfl
    · rfl
    intro _
    left
    dsimp only [PgPool.free, PoolState.borrowed]
    rw [hlist, List.length_append, List.length_cons] at hidle ⊢
    omega
  | connect _ hroom _ =>
    apply h.leave (i := i)
    · rfl
    · rfl
    intro _
    left
    dsimp only [PgPool.free, PoolState.borrowed]
    rw [List.length_nil]
    omega
  | fail hbroken hroom hfailed =>
    apply h.leave (i := i)
    · rfl
    · rfl
    intro hwaiting
    right
    constructor
    · intro hi
      obtain ⟨c, hc⟩ := hkeeps i x answer rfl hi hwaiting ⟨hbroken, hroom⟩
      rw [hc] at hfailed
      cases hfailed
    · dsimp only [PgPool.free, PoolState.borrowed]
      rw [List.length_nil]
      omega
  | wait _ hfull =>
    constructor
    · dsimp only [PoolState.borrowed]
      rw [Finset.disjoint_insert_left]
      exact ⟨Finset.notMem_erase i s.woken, h.apart.mono_right (Finset.erase_subset ..)⟩
    · intro _
      dsimp only [PgPool.free, PoolState.borrowed]
      rw [List.length_nil]
      omega

omit [DecidableEq ι] [DecidableEq η] in
theorem PgPool.free_giveBack (pool : PgPool) (healthy : Bool) (c : Conn) :
    (pool.giveBack healthy c).free ≤ pool.free + 1 := by
  unfold PgPool.giveBack PgPool.free
  cases healthy with
  | true =>
    rw [if_pos rfl]
    dsimp only
    rw [List.length_cons]
    omega
  | false =>
    rw [if_neg Bool.false_ne_true]
    dsimp only
    split <;> omega

/-- Every step that keeps the wake-ups keeps enough of them. -/
theorem Awake.step {event : PoolEvent ι η} (hs : Accounted maxConnections s) (h : Awake s)
    (hstep : PoolStep s event s') (hkeeps : KeepsWakeUps s event) : Awake s' := by
  cases hstep with
  | borrow _ _ _ => exact h.borrowed hs hkeeps
  | giveBackAlone _ halone =>
    constructor
    · exact h.apart
    · intro hwaiting
      exact absurd hwaiting (Finset.not_nonempty_iff_eq_empty.mpr halone)
  | giveBack _ hi =>
    obtain ⟨hapart, henough⟩ := h.wake hi (s.pool.free_giveBack _ _)
    exact ⟨hapart, henough⟩
  | move _ _ => exact ⟨h.apart, h.enough⟩
  | wakes hi => exact h.wake hi (Nat.le_succ _)
  | sickens => exact ⟨h.apart, h.enough⟩

omit [DecidableEq ι] [DecidableEq η] in
theorem awake_created (c : Conn) : Awake (created maxConnections c : PoolState ι η) := by
  constructor
  · exact Finset.disjoint_empty_left _
  · intro hwaiting
    exact absurd hwaiting Finset.not_nonempty_empty

omit [DecidableEq ι] [DecidableEq η] in
theorem Awake.noneStuck (h : Awake s) : NoneStuck s := by
  intro hwaiting hfree
  have henough := h.enough hwaiting
  have hpositive : 0 < s.pool.free := by
    unfold PgPool.free
    rcases hfree with hroom | hidle
    · omega
    · have hlength := List.length_pos_of_ne_nil hidle
      omega
  exact Finset.card_pos.mp (hpositive.trans_le henough)

end WakeUps

/-! ## Runs -/

section Runs
variable {ι η : Type} [DecidableEq ι] [DecidableEq η] {maxConnections : Nat} {s : PoolState ι η}
variable {K : PoolState ι η → PoolEvent ι η → Prop}

theorem PoolReaches.accounted (h : PoolReaches K maxConnections s) :
    Accounted maxConnections s := by
  induction h with
  | create c hroom => exact accounted_created c hroom
  | step _ hstep _ ih => exact ih.step hstep

theorem PoolReaches.awake (h : PoolReaches KeepsWakeUps maxConnections s) : Awake s := by
  induction h with
  | create c _ => exact awake_created c
  | step hreaches hstep hkeeps ih => exact ih.step hreaches.accounted hstep hkeeps

variable (ι η) in
/-- Whatever happens, every connection is idle once or held by one handle, the counters agree and
no unhealthy connection is handed out; and while no borrower that was woken fails to connect, no
borrower is left waiting. -/
theorem pool_invariant (maxConnections : Nat) :
    (∀ s : PoolState ι η, PoolReaches (fun _ _ => True) maxConnections s →
      Accounted maxConnections s ∧ ∀ event s', PoolStep s event s' → LendsHealthy s event) ∧
    ∀ s : PoolState ι η, PoolReaches KeepsWakeUps maxConnections s → NoneStuck s := by
  constructor
  · intro s hreaches
    exact ⟨hreaches.accounted, fun event s' hstep => lendsHealthy_of_step hstep⟩
  · intro s hreaches
    exact hreaches.awake.noneStuck

end Runs

/-! ## One connection and three borrowers -/

private def refused : Error := ⟨.unavailable, "", []⟩

/-- The only connection is held and two borrowers wait. -/
private def contended : PoolState Nat Nat :=
  let s : PoolState Nat Nat := created 1 0
  let s₁ := s.borrowed 0 0 (s.pool.borrow s.healthy (.error refused))
  let s₂ := s₁.borrowed 1 1 (s₁.pool.borrow s₁.healthy (.error refused))
  s₂.borrowed 2 2 (s₂.pool.borrow s₂.healthy (.error refused))

private theorem contended_reached {K : PoolState Nat Nat → PoolEvent Nat Nat → Prop}
    (hK : ∀ s event, s.woken = ∅ → K s event) : PoolReaches K 1 contended := by
  have hfails : ∀ {s : PoolState Nat Nat} c, (.error refused : Result Conn) = .ok c → c ∉ s.alive :=
    fun _ h => nomatch h
  have hfirst := (PoolReaches.create (K := K) 0 Nat.one_pos).step
    (.borrow (i := 0) (h := 0) (by decide) rfl hfails) (hK _ _ rfl)
  have hsecond := hfirst.step (.borrow (i := 1) (h := 1) (by decide) rfl hfails) (hK _ _ (by decide))
  exact hsecond.step (.borrow (i := 2) (h := 2) (by decide) rfl hfails) (hK _ _ (by decide))

/-- The connection is given back: it is free and one of the two waits on, but the other was
woken. -/
theorem returned_wakes_one :
    ∃ s : PoolState Nat Nat, PoolReaches KeepsWakeUps 1 s ∧ s.pool.idle = [0] ∧
      s.waiting = {2} ∧ Accounted 1 s ∧ NoneStuck s := by
  have hreached : ∀ {K : PoolState Nat Nat → PoolEvent Nat Nat → Prop},
      (∀ s event, s.woken = ∅ → K s event) → PoolReaches K 1 ((contended.gaveBack 0 0).wake 1) := by
    intro K hK
    exact (contended_reached hK).step (.giveBack (h := 0) (c := 0) (i := 1) rfl (by decide))
      (hK _ _ (by decide))
  have hkeeps : PoolReaches KeepsWakeUps 1 ((contended.gaveBack 0 0).wake 1) := by
    apply hreached
    intro s event hnone i h answer _ hi
    rw [hnone] at hi
    cases hi
  exact ⟨_, hkeeps, rfl, by decide, ((pool_invariant Nat Nat 1).1 _ (hreached (by simp))).1,
    (pool_invariant Nat Nat 1).2 _ hkeeps⟩

/-- The connection is broken when it is given back, and the borrower that was woken fails to
connect: the other one waits while there is a place. -/
theorem failed_connect_strands :
    ¬ ∀ (maxConnections : Nat) (s : PoolState Nat Nat),
      PoolReaches (fun _ _ => True) maxConnections s → NoneStuck s := by
  intro h
  let s := ({ contended with healthy := Function.update contended.healthy 0 false }.gaveBack 0 0).wake 1
  have hreached : PoolReaches (fun _ _ => True) 1 s :=
    ((contended_reached (by simp)).step (.sickens (c := 0)) trivial).step
      (.giveBack (h := 0) (c := 0) (i := 1) rfl (by decide)) trivial
  have hfailed := hreached.step
    (@PoolStep.borrow _ _ _ _ _ 1 1 (.error refused) (by decide) rfl (by simp)) trivial
  have hstuck := h 1 _ hfailed ⟨2, by decide⟩ (.inl (by decide))
  exact absurd hstuck (by decide)

end FileService.Postgres
