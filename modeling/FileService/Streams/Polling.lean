import FileService.Streams.Throttled

/-!
# Polling a throttled source

A refill pays whole tokens for the time since the last one and starts counting again:
the rest of the division is gone. How much is lost depends on when the clock is looked
at, so two runs end with the same tokens exactly when they lose the same.
-/
namespace FileService.Streams.ThrottledSource
open FileService.Common

variable {σ τ : Type}

/-- The looks at the clock during a call: a refused read looks twice. -/
def looksOf (c : ThrottledSource σ) : Call → List Int
  | .read _ now later => if (c.refill now).tokens ≤ 0 then [now, later] else [now]
  | .waitMillis _ now => [now]

/-- All the looks at the clock during a run. -/
def looks (source : ByteSource σ) : ThrottledSource σ → List Call → List Int
  | _, [] => []
  | c, call :: calls => c.looksOf call ++ looks source (c.step source call) calls

/-- The bucket has room for what a refill at this time brings. -/
def HasRoom (c : ThrottledSource σ) (now : Int) : Prop :=
  c.tokens + c.rate * (now - c.lastRefill) / 1000 ≤ c.burst

/-- No refill of the call is cut short by the size of the bucket. -/
def HasRoomFor (c : ThrottledSource σ) : Call → Prop
  | .read _ now later =>
    c.HasRoom now ∧ ((c.refill now).tokens ≤ 0 → (c.refill now).HasRoom later)
  | .waitMillis _ now => c.HasRoom now

/-- No refill of the run is, nor the one at its end `t`. -/
def NeverFull (source : ByteSource σ) (t : Int) : ThrottledSource σ → List Call → Prop
  | c, [] => c.HasRoom t
  | c, call :: calls => c.HasRoomFor call ∧ NeverFull source t (c.step source call) calls

/-- The tokens that somebody who asks at the time `t` after the run finds. -/
def available (source : ByteSource σ) (t : Int) (c : ThrottledSource σ) (calls : List Call) : Int :=
  ((c.run source calls).refill t).tokens

/-- The thousandths of a token that the time from `filled` to `t` is still owed after these
looks at the clock: the rest of every refill, and the time since the last one. -/
def unpaid (rate t : Int) : Int → List Int → Int
  | filled, [] => rate * (t - filled)
  | filled, now :: looks =>
    if 1000 ≤ rate * (now - filled) then
      rate * (now - filled) % 1000 + unpaid rate t now looks
    else unpaid rate t filled looks

/-- The thousandths of a token that these looks at the clock make of a bucket. -/
def balance (t : Int) (c : ThrottledSource σ) (looks : List Int) : Int :=
  1000 * c.tokens + c.rate * (t - c.lastRefill) - unpaid c.rate t c.lastRefill looks

/-- Two buckets that hold the same and are paid alike. -/
structure SameBucket (c : ThrottledSource σ) (c' : ThrottledSource τ) : Prop where
  rate : c'.rate = c.rate
  tokens : c'.tokens = c.tokens
  filled : c'.lastRefill = c.lastRefill

/-! ## The balance of a run -/

section Balance
variable {source : ByteSource σ} {c : ThrottledSource σ} {now t : Int}

@[simp] theorem balance_nil : balance t c [] = 1000 * c.tokens := by
  simp [balance, unpaid]

theorem refill_balance (t : Int) (later : List Int) (hrate : 0 < c.rate) (hroom : c.HasRoom now) :
    balance t (c.refill now) later = balance t c (now :: later) := by
  unfold HasRoom at hroom
  unfold balance
  rw [unpaid]
  rcases refill_cases now hrate with ⟨hless, heq⟩ | ⟨hadd, -, heq⟩
  · rw [heq, if_neg (by omega)]
  · have hsplit : c.rate * (t - c.lastRefill) =
        c.rate * (now - c.lastRefill) + c.rate * (t - now) := by
      ring
    rw [heq, if_pos hadd, hsplit]
    dsimp only
    omega

/-- A call hands over what it takes out of the balance. -/
theorem step_balance (source : ByteSource σ) (t : Int) (later : List Int) (hrate : 0 < c.rate)
    {call : Call} (hroom : c.HasRoomFor call) :
    balance t (c.step source call) later + 1000 * (c.output source call).length =
      balance t c (c.looksOf call ++ later) := by
  cases call with
  | waitMillis want now =>
    have hfilled := refill_balance t later hrate hroom
    simpa [step, output, looksOf, waitMillis_snd hrate] using hfilled
  | read capacity now later' =>
    obtain ⟨hnow, hlater⟩ := hroom
    have hfast : 0 < (c.refill now).rate := by simpa using hrate
    unfold step output looksOf
    dsimp only
    rcases readAt_cases source capacity now later' hrate with
      ⟨hempty, heq⟩ | ⟨htoken, ⟨e, s, heq⟩ | ⟨bytes, s, hfits, heq⟩⟩
    · have hagain := refill_balance t later hfast (hlater hempty)
      have hfirst := refill_balance t (later' :: later) hrate hnow
      rw [heq, if_pos hempty]
      simpa [Except.toOption] using hagain.trans hfirst
    · have hfirst := refill_balance t later hrate hnow
      rw [heq, if_neg (by omega)]
      simpa [Except.toOption, balance] using hfirst
    · have hfirst := refill_balance t later hrate hnow
      rw [heq, if_neg (by omega), List.singleton_append, ← hfirst]
      unfold balance
      simp only [Except.toOption, Option.getD_some]
      omega

theorem run_balance (hrate : 0 < c.rate) {calls : List Call} (hroom : NeverFull source t c calls) :
    1000 * available source t c calls + 1000 * (c.delivered source calls).length =
      balance t c (looks source c calls ++ [t]) := by
  induction calls generalizing c with
  | nil =>
    have hfilled := refill_balance t [] hrate hroom
    simpa [available, run, delivered, looks] using hfilled
  | cons call calls ih =>
    obtain ⟨hfirst, hrest⟩ := hroom
    have hfast : 0 < (c.step source call).rate := by rwa [(step_fixed source hrate call).1]
    have hcalls := ih hfast hrest
    have hcall := step_balance source t (looks source (c.step source call) calls ++ [t]) hrate hfirst
    have hsame : available source t (c.step source call) calls =
        available source t c (call :: calls) := rfl
    rw [delivered, looks, List.length_append, List.append_assoc, ← hcall, ← hcalls, hsame]
    push_cast
    ring

end Balance

/-! ## Whole tokens -/

section Whole
variable {source : ByteSource σ} {c : ThrottledSource σ} {rate filled now t t' : Int}

/-- With whole tokens for every millisecond a look leaves nothing unpaid. -/
theorem unpaid_eq_zero {looks : List Int} (hrate : 0 < rate) (hwhole : 1000 ∣ rate)
    (hfilled : filled ≤ t) (hlooks : ∀ now ∈ looks, now ≤ t) :
    unpaid rate t filled (looks ++ [t]) = 0 := by
  induction looks generalizing filled with
  | nil =>
    have hnonneg : 0 ≤ rate * (t - filled) := mul_nonneg hrate.le (by omega)
    have hdvd : 1000 ∣ rate * (t - filled) := hwhole.mul_right _
    simp only [List.nil_append, unpaid, sub_self, mul_zero]
    split_ifs <;> omega
  | cons now looks ih =>
    have hdvd : 1000 ∣ rate * (now - filled) := hwhole.mul_right _
    have hrest : ∀ now' ∈ looks, now' ≤ t := fun now' h => hlooks now' (List.mem_cons_of_mem _ h)
    rw [List.cons_append, unpaid]
    split_ifs
    · rw [ih (hlooks now List.mem_cons_self) hrest]
      omega
    · exact ih hfilled hrest

theorem Ticks.le {calls : List Call} (h : Ticks t calls t') : t ≤ t' := by
  induction calls generalizing t with
  | nil => exact h
  | cons call calls ih =>
    cases call with
    | read capacity now later => exact h.1.trans (h.2.1.trans (ih h.2.2))
    | waitMillis want now => exact h.1.trans (ih h.2)

theorem looks_le (source : ByteSource σ) (c : ThrottledSource σ) {calls : List Call}
    (hticks : Ticks t calls t') :
    ∀ now ∈ looks source c calls, now ≤ t' := by
  induction calls generalizing c t with
  | nil => simp [looks]
  | cons call calls ih =>
    intro now hnow
    rcases List.mem_append.mp hnow with hfirst | hrest
    · cases call with
      | read capacity now' later =>
        have hlater := hticks.2.2.le
        have hnow' := hticks.2.1
        unfold looksOf at hfirst
        dsimp only at hfirst
        split at hfirst <;> simp at hfirst <;> omega
      | waitMillis want now' =>
        obtain rfl : now = now' := by simpa [looksOf] using hfirst
        exact hticks.2.le
    · cases call with
      | read capacity now' later => exact ih _ hticks.2.2 now hrest
      | waitMillis want now' => exact ih _ hticks.2 now hrest

/-- A whole number of tokens for every millisecond is paid in full, however often it is asked for. -/
theorem available_of_whole {calls : List Call} (hrate : 0 < c.rate) (hwhole : 1000 ∣ c.rate)
    (hfilled : c.lastRefill ≤ t) (hticks : Ticks t calls t') (hroom : NeverFull source t' c calls) :
    1000 * available source t' c calls + 1000 * (c.delivered source calls).length =
      1000 * c.tokens + c.rate * (t' - c.lastRefill) := by
  have hbalance := run_balance hrate hroom
  have hpaid := unpaid_eq_zero hrate hwhole (hfilled.trans hticks.le)
    (looks_le source c hticks)
  unfold balance at hbalance
  omega

end Whole

/-! ## Two runs -/

section TwoRuns
variable {c : ThrottledSource σ} {c' : ThrottledSource τ} {t : Int} {calls calls' : List Call}

/-- Two runs that hand over as much and never fill the bucket end with the same tokens if and
only if their looks at the clock leave as much unpaid. -/
theorem available_eq_iff (source : ByteSource σ) (source' : ByteSource τ) (hrate : 0 < c.rate)
    (hsame : SameBucket c c') (hroom : NeverFull source t c calls)
    (hroom' : NeverFull source' t c' calls')
    (htaken : (c.delivered source calls).length = (c'.delivered source' calls').length) :
    available source t c calls = available source' t c' calls' ↔
      unpaid c.rate t c.lastRefill (looks source c calls ++ [t]) =
        unpaid c.rate t c.lastRefill (looks source' c' calls' ++ [t]) := by
  have hfast : 0 < c'.rate := by rwa [hsame.rate]
  have hfirst := run_balance hrate hroom
  have hsecond := run_balance hfast hroom'
  unfold balance at hfirst hsecond
  rw [hsame.rate, hsame.tokens, hsame.filled] at hsecond
  omega

theorem available_eq_zeros :
    available zeros 4 (make () 1500 10 0) [.read 10 0 0, .waitMillis 1 2] =
      available zeros 4 (make () 1500 10 0) [.read 4 0 0, .read 9 0 0] := by
  refine (available_eq_iff zeros zeros (by decide) ⟨rfl, rfl, rfl⟩ ?_ ?_ (by decide)).mpr (by decide)
  · simp [NeverFull, HasRoomFor, HasRoom]
    decide
  · simp [NeverFull, HasRoomFor, HasRoom]
    decide

/-- Asked twice, a bucket of 1500 tokens a second pays two in two milliseconds; asked once, it
pays three. -/
theorem polling_costs_a_token :
    ¬∀ calls calls' : List Call, Ticks 0 calls 2 → Ticks 0 calls' 2 →
      NeverFull zeros 2 (make () 1500 10 0) calls → NeverFull zeros 2 (make () 1500 10 0) calls' →
      (make () 1500 10 0).delivered zeros calls = (make () 1500 10 0).delivered zeros calls' →
      available zeros 2 (make () 1500 10 0) calls = available zeros 2 (make () 1500 10 0) calls' := by
  intro h
  have hfull : NeverFull zeros 2 (make () 1500 10 0) [.read 10 0 0, .waitMillis 1 1] := by
    simp [NeverFull, HasRoomFor, HasRoom]
    decide
  have hfull' : NeverFull zeros 2 (make () 1500 10 0) [.read 10 0 0] := by
    simp [NeverFull, HasRoomFor, HasRoom]
    decide
  have hsame := h _ _ (by simp [Ticks]) (by simp [Ticks]) hfull hfull' (by decide)
  revert hsame
  decide

end TwoRuns

end FileService.Streams.ThrottledSource
