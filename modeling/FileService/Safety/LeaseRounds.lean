import FileService.Domain.Schedule
import FileService.Safety.LeaseStage

/-!
# Rounds of the collector and the leases they claim

A claim selects the first expired leases in the order of their keys, and holds
them for a minute. A minute later they are the first ones again: with more dead
leases than the limit of a claim, the last ones are never claimed.
-/
namespace FileService.Safety.LeaseStage
open FileService.Common FileService.Domain FileService.Interaction FileService.App
open FileService.Infra FileService.Domain.World FileService.Safety.DryRun

/-- No more elements than a page has come before, or are, one of its elements. -/
theorem length_le_of_mem_take {α : Type} {r : α → α → Prop} {l before : List α} {m : Nat} {a : α}
    (hsorted : l.Pairwise r) (ha : a ∈ l.take m) (hnodup : before.Nodup)
    (hbefore : ∀ b ∈ before, b ∈ l ∧ ¬r a b) : before.length ≤ m := by
  rw [← List.take_append_drop m l, List.pairwise_append] at hsorted
  have hpage : before ⊆ l.take m := by
    intro b hb
    obtain ⟨hmem, hnot⟩ := hbefore b hb
    rw [← List.take_append_drop m l, List.mem_append] at hmem
    exact hmem.resolve_right fun hdrop => hnot (hsorted.2.2 a ha b hdrop)
  exact (hnodup.subperm hpage).length_le.trans (List.length_take_le m l)

/-- The keys of the expired leases of a partition. -/
def deadKeys (w : World) (partition : String) : List String :=
  (w.leases.expired w.nowMillis partition).map Prod.fst

theorem deadKeys_sorted (w : World) (partition : String) :
    (deadKeys w partition).Pairwise (· < ·) := by
  rw [deadKeys, List.pairwise_map]
  apply List.Pairwise.filter
  exact Std.ExtTreeMap.ordered_keys_toList.imp fun h => Buckets.compare_text_eq_lt.mp h

/-- One run of the collector and the states around it. -/
structure Round where
  instanceId : String
  options : GcOptions
  before : World
  after : World

namespace Round

/-- A run without failures that is not refused. -/
def Performed (d : Deployment) (partition : String) (limit : Nat) (round : Round) : Prop :=
  round.options.claimLimit = limit ∧ round.instanceId ∉ round.before.running ∧
    ∃ pages t out, (runGc pages round.instanceId partition round.options).run.Performs
      (Exec d .none) round.before t out round.after

/-- Between two runs a minute or more passes and nobody touches these leases. Anything else
may happen. -/
def Then (keys : List String) (round next : Round) : Prop :=
  round.after.nowMillis + 60000 ≤ next.before.nowMillis ∧
    ∀ k ∈ keys, next.before.leases.leases[k]? = round.after.leases.leases[k]?

/-- The run takes over the expired lease under this text key. -/
def Claims (round : Round) (k : String) : Prop :=
  ∃ lease, round.before.leases.leases[k]? = some lease ∧
    lease.expiresAtEpochMillis ≤ round.before.nowMillis ∧
    round.after.leases.leases[k]? =
      some (InMemoryLeaseRepository.heldBy round.instanceId round.before.nowMillis lease)

end Round

/-- Rounds one after the other, the first one from this state. -/
structure Rounds (d : Deployment) (partition : String) (limit : Nat) (w : World)
    (rounds : List Round) : Prop where
  start : ∀ round ∈ rounds.head?, round.before = w
  performed : ∀ round ∈ rounds, round.Performed d partition limit
  apart : rounds.IsChain (Round.Then (deadKeys w partition))

variable {d : Deployment} {partition : String} {limit : Nat} {w : World} {round : Round}
variable {rounds : List Round} {k : String}

theorem mem_deadKeys : k ∈ deadKeys w partition ↔ ∃ lease, w.leases.leases[k]? = some lease ∧
    Text.startsWith k (partition ++ "\x1f") = true ∧ lease.expiresAtEpochMillis ≤ w.nowMillis := by
  simp only [deadKeys, List.mem_map, Prod.exists, InMemoryLeaseRepository.mem_expired]
  constructor
  · rintro ⟨k, lease, h, rfl⟩
    exact ⟨lease, h⟩
  · rintro ⟨lease, h⟩
    exact ⟨k, lease, h, rfl⟩

/-- What a round leaves under each key: the first dead leases are held for a minute. -/
theorem Round.Performed.leases (h : round.Performed d partition limit) (hpartition : partition ≠ "")
    (hlimit : 0 < limit) : round.after.nowMillis = round.before.nowMillis ∧
      ∀ k, round.after.leases.leases[k]? =
        if k ∈ (deadKeys round.before partition).take limit then
          round.before.leases.leases[k]?.map
            (InMemoryLeaseRepository.heldBy round.instanceId round.before.nowMillis)
        else round.before.leases.leases[k]? := by
  obtain ⟨hclaim, hfree, pages, t, out, hrun⟩ := h
  obtain ⟨hleases, hnow⟩ := performs_runGc_leases hpartition (by omega) hfree hrun
  refine ⟨hnow, fun k => ?_⟩
  rw [hleases, afterClaim, InMemoryLeaseRepository.getElem?_claimExpired]
  apply if_congr _ rfl rfl
  rw [hclaim, InMemoryLeaseRepository.selected, Int.toNat_natCast, List.map_take, deadKeys]

/-- A round claims the first dead leases in key order, as many as its limit allows. -/
theorem Round.Performed.claims_iff (h : round.Performed d partition limit)
    (hpartition : partition ≠ "") (hlimit : 0 < limit) :
    round.Claims k ↔ k ∈ (deadKeys round.before partition).take limit := by
  obtain ⟨-, hafter⟩ := h.leases hpartition hlimit
  constructor
  · rintro ⟨lease, hlease, hdue, hheld⟩
    by_contra hnot
    rw [hafter k, if_neg hnot, hlease] at hheld
    have hexpires := congrArg Lease.expiresAtEpochMillis (Option.some.inj hheld)
    simp only [InMemoryLeaseRepository.heldBy] at hexpires
    omega
  · intro hk
    obtain ⟨lease, hlease, -, hdue⟩ := mem_deadKeys.mp (List.mem_of_mem_take hk)
    exact ⟨lease, hlease, hdue, by rw [hafter k, if_pos hk, hlease, Option.map_some]⟩

/-- A lease that was dead before a round is dead again a minute after it. -/
theorem Round.Performed.mem_deadKeys_next {next : Round} {keys : List String}
    (h : round.Performed d partition limit) (hpartition : partition ≠ "") (hlimit : 0 < limit)
    (hthen : round.Then keys next) (hkey : k ∈ keys) (hdead : k ∈ deadKeys round.before partition) :
    k ∈ deadKeys next.before partition := by
  obtain ⟨hnow, hafter⟩ := h.leases hpartition hlimit
  obtain ⟨hminute, hsame⟩ := hthen
  obtain ⟨lease, hlease, hprefix, hdue⟩ := mem_deadKeys.mp hdead
  rw [mem_deadKeys, hsame k hkey, hafter k]
  split_ifs
  · refine ⟨InMemoryLeaseRepository.heldBy round.instanceId round.before.nowMillis lease,
      by rw [hlease, Option.map_some], hprefix, ?_⟩
    simp only [InMemoryLeaseRepository.heldBy]
    omega
  · exact ⟨lease, hlease, hprefix, by omega⟩

/-- With more dead leases than the limit, the last of them is not claimed in any round. -/
theorem not_claims_last {last : String} {keys : List String} (hpartition : partition ≠ "")
    (hlimit : 0 < limit) (hkeys : keys.Nodup)
    (hmax : ∀ k ∈ keys, ¬last < k) (hmany : limit < keys.length)
    (hperformed : ∀ round ∈ rounds, round.Performed d partition limit)
    (hapart : rounds.IsChain (Round.Then keys))
    (hdead : ∀ round ∈ rounds.head?, ∀ k ∈ keys, k ∈ deadKeys round.before partition) :
    ∀ round ∈ rounds, ¬round.Claims last := by
  induction rounds with
  | nil => simp
  | cons first rest ih =>
    have hfirst := hperformed first List.mem_cons_self
    have hdead' : ∀ k ∈ keys, k ∈ deadKeys first.before partition := hdead first rfl
    rw [List.isChain_cons] at hapart
    obtain ⟨hnext, hapart⟩ := hapart
    rw [List.forall_mem_cons]
    constructor
    · rw [hfirst.claims_iff hpartition hlimit]
      intro htaken
      have := length_le_of_mem_take (deadKeys_sorted first.before partition) htaken hkeys
        fun k hk => ⟨hdead' k hk, hmax k hk⟩
      omega
    · apply ih (fun round hround => hperformed round (List.mem_cons_of_mem _ hround)) hapart
      intro next hhead k hk
      exact hfirst.mem_deadKeys_next hpartition hlimit (hnext next hhead) hk (hdead' k hk)

/-- Every lease that was dead at the start is claimed in one of the rounds. -/
def AllClaimed (partition : String) (w : World) (rounds : List Round) : Prop :=
  ∀ k ∈ deadKeys w partition, ∃ round ∈ rounds, round.Claims k

/-- However often the collector runs: every dead lease is claimed exactly if one claim can take
all of them. -/
theorem rounds_claim_all_iff (hpartition : partition ≠ "") (hlimit : 0 < limit)
    (h : Rounds d partition limit w rounds)
    (henough : ((deadKeys w partition).length + limit - 1) / limit ≤ rounds.length) :
    AllClaimed partition w rounds ↔ (deadKeys w partition).length ≤ limit := by
  constructor
  · intro hall
    by_contra hmany
    push Not at hmany
    have hsorted := deadKeys_sorted w partition
    have hne : deadKeys w partition ≠ [] := List.ne_nil_of_length_pos (by omega)
    obtain ⟨round, hround, hclaims⟩ := hall _ (List.getLast_mem hne)
    have hnodup : (deadKeys w partition).Nodup := hsorted.imp fun hlt => by
      rintro rfl
      exact String.lt_irrefl _ hlt
    have hmax : ∀ k ∈ deadKeys w partition, ¬(deadKeys w partition).getLast hne < k := by
      intro k hk hlt
      rw [← List.dropLast_append_getLast hne, List.pairwise_append] at hsorted
      rw [← List.dropLast_append_getLast hne, List.mem_append, List.mem_singleton] at hk
      rcases hk with hk | hk
      · have hbefore := hsorted.2.2 k hk _ (List.mem_singleton_self _)
        exact String.lt_irrefl _ (String.lt_trans hlt hbefore)
      · exact String.lt_irrefl k (by rwa [← hk] at hlt)
    refine not_claims_last hpartition hlimit hnodup hmax hmany h.performed h.apart ?_ round hround
      hclaims
    intro first hhead k hk
    rwa [h.start first hhead]
  · intro hfew k hk
    have hpos : 0 < (deadKeys w partition).length := List.length_pos_of_mem hk
    cases rounds with
    | nil =>
      have : 0 < ((deadKeys w partition).length + limit - 1) / limit :=
        Nat.div_pos (by omega) hlimit
      simp at henough
      omega
    | cons first rest =>
      refine ⟨first, List.mem_cons_self, ?_⟩
      rw [(h.performed first List.mem_cons_self).claims_iff hpartition hlimit, h.start first rfl,
        List.take_of_length_le hfew]
      exact hk

/-! ## Two dead leases, claimed one at a time -/

/-- Two leases that expired a minute ago. -/
def twoDeadLeases : World where
  leases :=
    let first := InMemoryLeaseRepository.acquire {} 0 "p" "/a" "i" 1000
    (first.2.acquire 0 "p" "/b" "i" 1000).2
  nowMillis := 61000

def oneByOne : GcOptions where
  dryRun := false
  claimLimit := 1

def carried (before : World) : Option (Except Exit GcReport × World) :=
  (runGc 2 "gc" "p" oneByOne).run.carryOut (choose sampleDeployment .none (.done "")) before

/-- The run that starts in this state. -/
def roundFrom (before : World) : Round where
  instanceId := "gc"
  options := oneByOne
  before
  after := (carried before).elim before Prod.snd

def firstRound : Round := roundFrom twoDeadLeases

def secondRound : Round := roundFrom { firstRound.after with nowMillis := 121000 }

theorem roundFrom_performed {before : World} (hfree : "gc" ∉ before.running)
    (h : (carried before).isSome = true) : (roundFrom before).Performed sampleDeployment "p" 1 := by
  obtain ⟨⟨out, after⟩, hcarried⟩ := Option.isSome_iff_exists.mp h
  have hafter : (roundFrom before).after = after := by
    simp [roundFrom, hcarried]
  obtain ⟨t, hrun⟩ := Program.performs_of_carryOut
    (fun w _ _ _ hstep => exec_of_choose sampleDeployment .none hstep) hcarried
  refine ⟨rfl, hfree, 2, t, out, ?_⟩
  rw [hafter]
  exact hrun

theorem rounds_twoDeadLeases :
    Rounds sampleDeployment "p" 1 twoDeadLeases [firstRound, secondRound] where
  start := by
    rintro round ⟨⟩
    rfl
  performed := by
    rw [List.forall_mem_cons, List.forall_mem_singleton]
    exact ⟨roundFrom_performed (by decide +kernel) (by decide +kernel),
      roundFrom_performed (by decide +kernel) (by decide +kernel)⟩
  apart := by
    rw [List.isChain_pair]
    exact ⟨by decide +kernel, fun k _ => rfl⟩

theorem twoDeadLeases_allClaimed_iff :
    AllClaimed "p" twoDeadLeases [firstRound, secondRound] ↔
      (deadKeys twoDeadLeases "p").length ≤ 1 :=
  rounds_claim_all_iff (by decide) (by decide) rounds_twoDeadLeases (by decide +kernel)

/-- The second lease keeps its old expiry through both rounds. -/
theorem second_lease_starved :
    Rounds sampleDeployment "p" 1 twoDeadLeases [firstRound, secondRound] ∧
      (deadKeys twoDeadLeases "p").length = 2 ∧
      ¬AllClaimed "p" twoDeadLeases [firstRound, secondRound] := by
  refine ⟨rounds_twoDeadLeases, by decide +kernel, fun hall => ?_⟩
  have hdead : InMemoryLeaseRepository.key "p" "/b" ∈ deadKeys twoDeadLeases "p" := by
    decide +kernel
  obtain ⟨round, hround, lease, -, -, hheld⟩ := hall _ hdead
  have hkept : ∀ round ∈ [firstRound, secondRound],
      (round.after.leases.leases[InMemoryLeaseRepository.key "p" "/b"]?).map
        Lease.ownerInstanceId = some "i" := by
    rw [List.forall_mem_cons, List.forall_mem_singleton]
    exact ⟨by decide +kernel, by decide +kernel⟩
  have howner := hkept round hround
  rw [hheld] at howner
  have hne : ("gc" : String) ≠ "i" := by decide
  rcases List.mem_pair.mp hround with rfl | rfl <;> exact hne (Option.some.inj howner)

end FileService.Safety.LeaseStage
