import FileService.Common.Decimal
import FileService.Streams.Source

/-!
# Throttled sources

A bucket of tokens pays for what is read. It is refilled whenever somebody asks,
by whole tokens only, and an interval too short for one is not lost: it counts
towards the next refill.
-/
namespace FileService.Streams
open FileService.Common FileService.Domain

variable {σ : Type}

/-- `ThrottledSource` -/
structure ThrottledSource (σ : Type) where
  inner : σ
  rate : Int
  burst : Int
  tokens : Int
  lastRefill : Int
  read : Int := 0
deriving DecidableEq, Repr

namespace ThrottledSource

/-- The constructor, at the time `now`. -/
def make (inner : σ) (rate burst now : Int) : ThrottledSource σ :=
  let burst := if burst ≤ 0 then 64 * 1024 else burst
  { inner, rate, burst, tokens := burst, lastRefill := now }

def refill (c : ThrottledSource σ) (now : Int) : ThrottledSource σ :=
  if c.rate ≤ 0 then c
  else
    let elapsed := now - c.lastRefill
    if elapsed ≤ 0 then c
    else
      let add := c.rate * elapsed / 1000
      if 0 < add then { c with tokens := min c.burst (c.tokens + add), lastRefill := now } else c

def waitMillis (c : ThrottledSource σ) (want : Nat) (now : Int) : Int × ThrottledSource σ :=
  if c.rate ≤ 0 then (0, c)
  else
    let c := c.refill now
    if (want : Int) ≤ c.tokens then (0, c)
    else (((want - c.tokens) * 1000 + c.rate - 1) / c.rate, c)

def readInner (source : ByteSource σ) (c : ThrottledSource σ) (capacity : Nat) :
    Result Bytes × ThrottledSource σ :=
  match source.read capacity c.inner with
  | (.error e, s) => (.error e, { c with inner := s })
  | (.ok bytes, s) => (.ok bytes, { c with inner := s, read := c.read + bytes.length })

/-- `Read`, with two looks at the clock: `now`, and `later` when the wait is worked out. -/
def readAt (source : ByteSource σ) (c : ThrottledSource σ) (capacity : Nat) (now later : Int) :
    Result Bytes × ThrottledSource σ :=
  if c.rate ≤ 0 then c.readInner source capacity
  else
    let c := c.refill now
    if c.tokens ≤ 0 then
      let (wait, c) := c.waitMillis 1 later
      (.error ((err .unavailable "限流：令牌不足").withDetail "wait_ms" (toString wait)), c)
    else
      let allowed := (min c.tokens capacity).toNat
      match c.readInner source allowed with
      | (.error e, c) => (.error e, c)
      | (.ok bytes, c) => (.ok bytes, { c with tokens := c.tokens - bytes.length })

/-- A call, with what the clock reads during it. -/
inductive Call where
  | read (capacity : Nat) (now later : Int)
  | waitMillis (want : Nat) (now : Int)
deriving DecidableEq, Repr

def step (source : ByteSource σ) (c : ThrottledSource σ) : Call → ThrottledSource σ
  | .read capacity now later => (c.readAt source capacity now later).2
  | .waitMillis want now => (c.waitMillis want now).2

def run (source : ByteSource σ) (c : ThrottledSource σ) (calls : List Call) : ThrottledSource σ :=
  calls.foldl (step source) c

/-- The bytes that a call hands over. -/
def output (source : ByteSource σ) (c : ThrottledSource σ) : Call → Bytes
  | .read capacity now later => ((c.readAt source capacity now later).1.toOption).getD []
  | .waitMillis _ _ => []

/-- All the bytes that a run hands over. -/
def delivered (source : ByteSource σ) : ThrottledSource σ → List Call → Bytes
  | _, [] => []
  | c, call :: calls => c.output source call ++ delivered source (c.step source call) calls

/-- The clock does not go back between the times `t` and `t'` of these calls. -/
def Ticks : Int → List Call → Int → Prop
  | t, [], t' => t ≤ t'
  | t, .read _ now later :: calls, t' => t ≤ now ∧ now ≤ later ∧ Ticks later calls t'
  | t, .waitMillis _ now :: calls, t' => t ≤ now ∧ Ticks now calls t'

/-- A read at this time finds no token. -/
def Refuses (c : ThrottledSource σ) (now : Int) : Prop := 0 < c.rate ∧ (c.refill now).tokens ≤ 0

/-! ## Refilling -/

section Refill
variable {c : ThrottledSource σ} {now : Int}

/-- A refill adds the tokens of the time since the last one, if it is time for one at all. -/
theorem refill_cases (now : Int) (hrate : 0 < c.rate) :
    (c.rate * (now - c.lastRefill) < 1000 ∧ c.refill now = c) ∨
      (1000 ≤ c.rate * (now - c.lastRefill) ∧ c.lastRefill < now ∧ c.refill now =
        { c with tokens := min c.burst (c.tokens + c.rate * (now - c.lastRefill) / 1000),
                 lastRefill := now }) := by
  have hon : ¬c.rate ≤ 0 := by omega
  unfold refill
  rw [if_neg hon]
  dsimp only
  by_cases helapsed : now - c.lastRefill ≤ 0
  · have hnothing : c.rate * (now - c.lastRefill) ≤ 0 :=
      mul_nonpos_of_nonneg_of_nonpos hrate.le helapsed
    rw [if_pos helapsed]
    exact .inl ⟨by omega, rfl⟩
  · rw [if_neg helapsed]
    by_cases hadd : 0 < c.rate * (now - c.lastRefill) / 1000
    · rw [if_pos hadd]
      exact .inr ⟨by omega, by omega, rfl⟩
    · rw [if_neg hadd]
      exact .inl ⟨by omega, rfl⟩

theorem refill_fixed (c : ThrottledSource σ) (now : Int) :
    (c.refill now).rate = c.rate ∧ (c.refill now).burst = c.burst ∧
      (c.refill now).read = c.read ∧ (c.refill now).inner = c.inner := by
  unfold refill
  dsimp only
  split_ifs <;> simp

@[simp] theorem refill_rate : (c.refill now).rate = c.rate := (refill_fixed c now).1
@[simp] theorem refill_burst : (c.refill now).burst = c.burst := (refill_fixed c now).2.1
@[simp] theorem refill_read : (c.refill now).read = c.read := (refill_fixed c now).2.2.1

theorem waitMillis_snd (hrate : 0 < c.rate) (want : Nat) (now : Int) :
    (c.waitMillis want now).2 = c.refill now := by
  have hon : ¬c.rate ≤ 0 := by omega
  unfold waitMillis
  rw [if_neg hon]
  dsimp only
  split <;> rfl

end Refill

/-! ## The invariant -/

section Invariant
variable {source : ByteSource σ} {c : ThrottledSource σ} {t₀ t t' now later : Int}

/-- What is left in the bucket and what has been read are paid for by the burst and the time
up to the last refill. -/
structure Fair (t₀ t : Int) (c : ThrottledSource σ) : Prop where
  rate_pos : 0 < c.rate
  burst_pos : 0 < c.burst
  tokens_nonneg : 0 ≤ c.tokens
  tokens_le : c.tokens ≤ c.burst
  filled : c.lastRefill ≤ t
  paid : (c.tokens + c.read) * 1000 ≤ c.burst * 1000 + c.rate * (c.lastRefill - t₀)

theorem Fair.wait (h : Fair t₀ t c) (ht : t ≤ t') : Fair t₀ t' c :=
  { h with filled := h.filled.trans ht }

theorem Fair.refill (h : Fair t₀ t c) (ht : t ≤ now) : Fair t₀ now (c.refill now) := by
  rcases refill_cases now h.rate_pos with ⟨-, heq⟩ | ⟨hadd, htime, heq⟩
  · rw [heq]
    exact h.wait ht
  · have hnonneg := h.tokens_nonneg
    have hburst := h.burst_pos
    have hpaid := h.paid
    have hsplit : c.rate * (now - t₀) = c.rate * (now - c.lastRefill) + c.rate * (c.lastRefill - t₀) := by
      ring
    rw [heq]
    exact {
      rate_pos := h.rate_pos
      burst_pos := h.burst_pos
      tokens_nonneg := by
        dsimp only
        omega
      tokens_le := min_le_left _ _
      filled := le_rfl
      paid := by
        dsimp only
        rw [hsplit]
        generalize c.rate * (now - c.lastRefill) = credit, c.rate * (c.lastRefill - t₀) = before at *
        omega }

/-- What a read takes out of the bucket it adds to what has been read. -/
theorem readAt_cases (source : ByteSource σ) (capacity : Nat) (now later : Int) (hrate : 0 < c.rate) :
    ((c.refill now).tokens ≤ 0 ∧
      c.readAt source capacity now later =
        (.error ((err .unavailable "限流：令牌不足").withDetail "wait_ms"
          (toString ((c.refill now).waitMillis 1 later).1)), ((c.refill now).refill later))) ∨
    (0 < (c.refill now).tokens ∧
      ((∃ e s, c.readAt source capacity now later = (.error e, { c.refill now with inner := s })) ∨
        ∃ bytes s, (bytes.length : Int) ≤ (c.refill now).tokens ∧
          c.readAt source capacity now later =
            (.ok bytes, { c.refill now with
              inner := s, read := c.read + bytes.length,
              tokens := (c.refill now).tokens - bytes.length }))) := by
  have hon : ¬c.rate ≤ 0 := by omega
  unfold readAt
  rw [if_neg hon]
  dsimp only
  by_cases hempty : (c.refill now).tokens ≤ 0
  · rw [if_pos hempty]
    have hfast : 0 < (c.refill now).rate := by simpa using hrate
    have hwait := waitMillis_snd hfast 1 later
    exact .inl ⟨hempty, by rw [← hwait]⟩
  · rw [if_neg hempty]
    refine .inr ⟨by omega, ?_⟩
    unfold readInner
    generalize hread : source.read (min (c.refill now).tokens capacity).toNat (c.refill now).inner = answer
    obtain ⟨e | bytes, s⟩ := answer
    · exact .inl ⟨e, s, rfl⟩
    · have hfits := source.fits hread
      refine .inr ⟨bytes, s, by omega, ?_⟩
      simp

theorem Fair.readAt (h : Fair t₀ t c) (capacity : Nat) (hnow : t ≤ now) (hlater : now ≤ later) :
    Fair t₀ later (c.readAt source capacity now later).2 := by
  have hrefilled := h.refill hnow
  rcases readAt_cases source capacity now later h.rate_pos with
    ⟨-, heq⟩ | ⟨-, ⟨e, s, heq⟩ | ⟨bytes, s, hfits, heq⟩⟩
  · rw [heq]
    exact hrefilled.refill hlater
  · rw [heq]
    exact { hrefilled.wait hlater with }
  · have hpaid := hrefilled.paid
    have hle := hrefilled.tokens_le
    rw [heq]
    rw [refill_read] at hpaid
    exact { hrefilled.wait hlater with
      tokens_nonneg := by
        dsimp only
        omega
      tokens_le := by
        dsimp only
        omega
      paid := by
        dsimp only
        omega }

theorem Fair.run {calls : List Call} (h : Fair t₀ t c) (hticks : Ticks t calls t') :
    Fair t₀ t' (c.run source calls) := by
  induction calls generalizing c t with
  | nil => exact h.wait hticks
  | cons call calls ih =>
    cases call with
    | read capacity now later =>
      obtain ⟨hnow, hlater, hrest⟩ := hticks
      exact ih (h.readAt capacity hnow hlater) hrest
    | waitMillis want now =>
      obtain ⟨hnow, hrest⟩ := hticks
      have hwait : Fair t₀ now (c.waitMillis want now).2 := by
        rw [waitMillis_snd h.rate_pos]
        exact h.refill hnow
      exact ih hwait hrest

end Invariant

/-! ## What is counted -/

section Counted
variable {source : ByteSource σ} {c : ThrottledSource σ} {now later : Int}

theorem step_fixed (source : ByteSource σ) (hrate : 0 < c.rate)
    (call : Call) : (c.step source call).rate = c.rate ∧ (c.step source call).burst = c.burst := by
  cases call with
  | read capacity now later =>
    rcases readAt_cases source capacity now later hrate with
      ⟨-, heq⟩ | ⟨-, ⟨e, s, heq⟩ | ⟨bytes, s, -, heq⟩⟩ <;> simp [step, heq]
  | waitMillis want now => simp [step, waitMillis_snd hrate]

theorem step_read (hrate : 0 < c.rate) (call : Call) :
    (c.step source call).read = c.read + (c.output source call).length := by
  cases call with
  | read capacity now later =>
    rcases readAt_cases source capacity now later hrate with
      ⟨-, heq⟩ | ⟨-, ⟨e, s, heq⟩ | ⟨bytes, s, -, heq⟩⟩ <;>
      simp [step, output, heq, Except.toOption]
  | waitMillis want now => simp [step, output, waitMillis_snd hrate]

/-- The counter is what has been handed over. -/
theorem run_read (source : ByteSource σ) (hrate : 0 < c.rate) (calls : List Call) :
    (c.run source calls).read = c.read + (c.delivered source calls).length := by
  induction calls generalizing c with
  | nil => simp [run, delivered]
  | cons call calls ih =>
    have hrest := ih (c := c.step source call) (by rwa [(step_fixed source hrate call).1])
    rw [step_read hrate] at hrest
    rw [delivered, List.length_append, run, List.foldl_cons]
    rw [run] at hrest
    omega

end Counted

/-! ## Waiting -/

section Waiting
variable {source : ByteSource σ} {c : ThrottledSource σ} {now later deadline : Int}

/-- By the deadline there is a token, if none is taken before. -/
def Pays (deadline : Int) (c : ThrottledSource σ) : Prop :=
  0 < c.rate ∧ 0 < c.burst ∧ 0 ≤ c.tokens ∧
    (0 < c.tokens ∨ 1000 ≤ c.rate * (deadline - c.lastRefill))

theorem Pays.refill (h : c.Pays deadline) (now : Int) : (c.refill now).Pays deadline := by
  obtain ⟨hrate, hburst, htokens, hpays⟩ := h
  rcases refill_cases now hrate with ⟨-, heq⟩ | ⟨hadd, -, heq⟩
  · rw [heq]
    exact ⟨hrate, hburst, htokens, hpays⟩
  · have hfilled : 0 < min c.burst (c.tokens + c.rate * (now - c.lastRefill) / 1000) := by omega
    rw [heq]
    exact ⟨hrate, hburst, hfilled.le, .inl hfilled⟩

theorem Pays.not_refuses (h : c.Pays deadline) (hnow : deadline ≤ now) : ¬c.Refuses now := by
  obtain ⟨hrate, hburst, htokens, hpays⟩ := h
  intro hrefuses
  have hempty := hrefuses.2
  rcases refill_cases now hrate with ⟨hless, heq⟩ | ⟨hadd, -, heq⟩
  · rw [heq] at hempty
    have hgrows : c.rate * (deadline - c.lastRefill) ≤ c.rate * (now - c.lastRefill) :=
      mul_le_mul_of_nonneg_left (by omega) hrate.le
    omega
  · rw [heq] at hempty
    dsimp only at hempty
    omega

/-- A call that hands nothing over takes no token. -/
theorem Pays.step (h : c.Pays deadline) (call : Call)
    (hnothing : c.output source call = []) : (c.step source call).Pays deadline := by
  cases call with
  | read capacity now later =>
    have hrefilled := h.refill now
    unfold output at hnothing
    unfold ThrottledSource.step
    dsimp only at hnothing ⊢
    rcases readAt_cases source capacity now later h.1 with
      ⟨-, heq⟩ | ⟨-, ⟨e, s, heq⟩ | ⟨bytes, s, -, heq⟩⟩
    · rw [heq]
      exact hrefilled.refill later
    · rw [heq]
      exact hrefilled
    · rw [heq] at hnothing ⊢
      obtain rfl : bytes = [] := hnothing
      simpa [Pays] using hrefilled
  | waitMillis want now =>
    unfold ThrottledSource.step
    dsimp only
    rw [waitMillis_snd h.1]
    exact h.refill now

theorem Pays.run {calls : List Call} (h : c.Pays deadline)
    (hnothing : c.delivered source calls = []) : (c.run source calls).Pays deadline := by
  induction calls generalizing c with
  | nil => exact h
  | cons call calls ih =>
    obtain ⟨hfirst, hrest⟩ := List.append_eq_nil_iff.mp hnothing
    exact ih (h.step call hfirst) hrest

/-- The wait that a refused read asks for is long enough. -/
theorem Fair.pays {t₀ t : Int} (h : Fair t₀ t c) (hlater : t ≤ later) :
    (c.refill later).Pays (later + (c.waitMillis 1 later).1) := by
  have hrefilled := h.refill hlater
  have hon : ¬c.rate ≤ 0 := by
    have := h.rate_pos
    omega
  refine ⟨hrefilled.rate_pos, hrefilled.burst_pos, hrefilled.tokens_nonneg, ?_⟩
  unfold waitMillis
  rw [if_neg hon]
  dsimp only
  split_ifs with hone
  · exact .inl (by omega)
  · have hzero : (c.refill later).tokens = 0 := by
      have := hrefilled.tokens_nonneg
      omega
    have hrate := hrefilled.rate_pos
    have hfilled := hrefilled.filled
    have hwait : ((1 : Nat) - (0 : Int)) * 1000 + c.rate - 1 = 999 + c.rate := by
      push_cast
      omega
    have hround := Int.lt_ediv_add_one_mul_self (999 + c.rate) h.rate_pos
    rw [refill_rate] at *
    rw [hzero, hwait]
    generalize (999 + c.rate) / c.rate = wait at *
    have hgrows : c.rate * wait ≤ c.rate * (later + wait - (c.refill later).lastRefill) :=
      mul_le_mul_of_nonneg_left (by omega) hrate.le
    have hexpand : (wait + 1) * c.rate = c.rate * wait + c.rate := by ring
    refine .inr ?_
    dsimp only
    omega

/-- A read that fails leaves a bucket that pays after the wait it names. -/
theorem Fair.pays_after {t₀ t wait : Int} {capacity : Nat} {e : Error} (h : Fair t₀ t c)
    (hnow : t ≤ now) (hlater : now ≤ later)
    (hfailed : (c.readAt source capacity now later).1 = .error e)
    (hwait : ("wait_ms", toString wait) ∈ e.details) :
    (c.readAt source capacity now later).2.Pays (later + wait) := by
  have hrefilled := h.refill hnow
  rcases readAt_cases source capacity now later h.rate_pos with
    ⟨-, heq⟩ | ⟨htoken, ⟨e', s, heq⟩ | ⟨bytes, s, -, heq⟩⟩
  · rw [heq] at hfailed ⊢
    cases hfailed
    have hsame : wait = ((c.refill now).waitMillis 1 later).1 := by
      have htext : toString wait = toString ((c.refill now).waitMillis 1 later).1 := by
        simpa [Error.withDetail, err] using hwait
      exact Decimal.toString_injective htext
    rw [hsame]
    exact hrefilled.pays hlater
  · rw [heq]
    exact ⟨hrefilled.rate_pos, hrefilled.burst_pos, hrefilled.tokens_nonneg, .inl htoken⟩
  · rw [heq] at hfailed
    cases hfailed

end Waiting

/-! ## The bound -/

section Bound
variable {source : ByteSource σ} {rate t₀ t : Int}

theorem fair_make (inner : σ) (hrate : 0 < rate) (burst t₀ : Int) :
    Fair t₀ t₀ (make inner rate burst t₀) := by
  have hburst : 0 < (if burst ≤ 0 then 64 * 1024 else burst) := by
    split_ifs <;> omega
  exact {
    rate_pos := hrate
    burst_pos := hburst
    tokens_nonneg := hburst.le
    tokens_le := le_rfl
    filled := le_rfl
    paid := by simp [make] }

theorem run_fixed (source : ByteSource σ) {c : ThrottledSource σ} (hrate : 0 < c.rate)
    (calls : List Call) :
    (c.run source calls).rate = c.rate ∧ (c.run source calls).burst = c.burst := by
  induction calls generalizing c with
  | nil => exact ⟨rfl, rfl⟩
  | cons call calls ih =>
    obtain ⟨hstep, hburst⟩ := step_fixed source hrate call
    have hrest := ih (c := c.step source call) (by rwa [hstep])
    rwa [hstep, hburst] at hrest

theorem Ticks.split {t' : Int} {calls calls' : List Call} (h : Ticks t (calls ++ calls') t') :
    ∃ t'', Ticks t calls t'' ∧ Ticks t'' calls' t' := by
  induction calls generalizing t with
  | nil => exact ⟨t, le_rfl, h⟩
  | cons call calls ih =>
    cases call with
    | read capacity now later =>
      obtain ⟨t'', hcalls, hcalls'⟩ := ih h.2.2
      exact ⟨t'', ⟨h.1, h.2.1, hcalls⟩, hcalls'⟩
    | waitMillis want now =>
      obtain ⟨t'', hcalls, hcalls'⟩ := ih h.2
      exact ⟨t'', ⟨h.1, hcalls⟩, hcalls'⟩

/-- An endless source. -/
def zeros : ByteSource Unit where
  read capacity _ := (.ok (List.replicate capacity 0), ())
  fits h := by
    cases h
    simp

end Bound

end ThrottledSource

end FileService.Streams
