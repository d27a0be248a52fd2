import FileService.Auth.LocalJwt

/-!
# The policy for tokens

A token is acceptable when it is sealed with the key, names the right parties
and the clock is between its times, as the numbers in it say. `verify` decides
by 64-bit integers and passes over an `nbf` that is no number, so that it
follows the policy only where the two ways to read the times agree.
-/
namespace FileService.Auth
open FileService.Common FileService.Common.Crypto FileService.Domain
open FileService.Common.Json (Value)
open FileService.Sqlite.LocationRepository (truncated)
open FileService.Transfer (Digest256 unauthenticated)

/-! ## The policy -/

section Policy
variable (prims : Primitives) (options : LocalJwtOptions)

/-- The number that a double stands for. -/
def doubleValue (bits : UInt64) : ℚ :=
  let exponent := (bits >>> 52 &&& 0x7FF).toNat
  let fraction := (bits &&& 0xFFFFFFFFFFFFF).toNat
  let mantissa := if exponent = 0 then fraction else fraction + 2 ^ 52
  let magnitude : ℚ := mantissa * 2 ^ max 1 exponent / 2 ^ 1075
  if bits >>> 63 = 0 then magnitude else -magnitude

def number? : Value → Option ℚ
  | .integer n => some n
  | .float bits => some (doubleValue bits)
  | _ => none

def Decodes (segment : Bytes) (v : Value) : Prop :=
  ∃ raw, base64UrlDecode segment = some raw ∧ prims.parse raw = some v ∧ v.isObject = true

/-- Three segments that are not empty, the algorithm, and the signature under a key. -/
def Sealed (token : Bytes) (payload : Value) : Prop :=
  ∃ headerSegment payloadSegment signature header,
    token.splitOn 46 = [headerSegment, payloadSegment, signature] ∧
    headerSegment ≠ [] ∧ payloadSegment ≠ [] ∧ signature ≠ [] ∧
    Decodes prims headerSegment header ∧ Decodes prims payloadSegment payload ∧
    header.find? "alg" = some (.string "HS256") ∧
    (options.verifySignature = true → options.hmacSecret ≠ [] ∧
      base64UrlDecode signature = some
        (prims.hmacSha256 options.hmacSecret (headerSegment ++ 46 :: payloadSegment)).toList)

/-- All that is asked of a token with this payload, apart from its times. -/
structure Fit (bearerToken : Bytes) (requestPartition : String) (payload : Value) : Prop where
  isSealed : Sealed prims options (trim (stripBearer bearerToken)) payload
  issuer : options.issuer ≠ "" → payload.find? "iss" = some (.string options.issuer)
  audience : options.audience ≠ "" → payload.find? "aud" = some (.string options.audience) ∨
    ∃ items, payload.find? "aud" = some (.array items) ∧ .string options.audience ∈ items
  partition : options.requirePartitionClaim = true → requestPartition ≠ "" →
    payload.find? options.partitionClaim = some (.string requestPartition)

/-- The clock is between the times, give or take the skew. -/
def InTime (now : Int) (payload : Value) : Prop :=
  (∃ x, (payload.find? "exp").bind number? = some x ∧ now ≤ x + options.clockSkewSeconds) ∧
    (payload.find? "nbf" = none ∨
      ∃ y, (payload.find? "nbf").bind number? = some y ∧ y ≤ now + options.clockSkewSeconds)

def Acceptable (now : Int) (bearerToken : Bytes) (requestPartition : String) : Prop :=
  ∃ payload, Fit prims options bearerToken requestPartition payload ∧ InTime options now payload

/-- The same in 64 bits, with an `nbf` that is no number passed over. -/
def InTime64 (now : Int) (payload : Value) : Prop :=
  (∃ e, numberClaim prims payload "exp" = some e ∧ now ≤ toInt64 (e + options.clockSkewSeconds)) ∧
    ∀ n, numberClaim prims payload "nbf" = some n → n ≤ toInt64 (now + options.clockSkewSeconds)

end Policy

/-! ## What the steps accept -/

section Steps
variable {prims : Primitives} {options : LocalJwtOptions} {token : Bytes} {v payload : Value}
variable {now : Int} {name text : String}

theorem stringClaim_eq_some : stringClaim v name = some text ↔ v.find? name = some (.string text) := by
  unfold stringClaim
  cases v.find? name with
  | none => simp
  | some x => cases x <;> simp [Value.asString?]

theorem getD_stringClaim (h : text ≠ "") :
    (stringClaim v name).getD "" = text ↔ v.find? name = some (.string text) := by
  rw [← stringClaim_eq_some]
  cases stringClaim v name with
  | none => simpa using h.symm
  | some s => simp

theorem openToken_ok {opened : Opened} : openToken prims token = .ok opened ↔
    ∃ headerSegment payloadSegment signature,
      token.splitOn 46 = [headerSegment, payloadSegment, signature] ∧
      headerSegment ≠ [] ∧ payloadSegment ≠ [] ∧ signature ≠ [] ∧
      Decodes prims headerSegment opened.header ∧ Decodes prims payloadSegment opened.payload ∧
      opened.signingInput = headerSegment ++ 46 :: payloadSegment ∧ opened.signature = signature := by
  constructor
  · intro h
    unfold openToken at h
    split at h
    · rename_i header payload signature hsplit
      split_ifs at h with hempty
      simp only [not_or] at hempty
      split at h
      · rename_i headerBytes payloadBytes hheader hpayload
        split at h
        · rename_i hms pms hparse hparse'
          cases h
          exact ⟨header, payload, signature, hsplit, hempty.1, hempty.2.1, hempty.2.2,
            ⟨headerBytes, hheader, hparse, rfl⟩, ⟨payloadBytes, hpayload, hparse', rfl⟩, rfl, rfl⟩
        · cases h
      · cases h
    · cases h
  · rintro ⟨header, payload, signature, hsplit, hheader, hpayload, hsignature,
      ⟨raw, hraw, hparse, hobject⟩, ⟨raw', hraw', hparse', hobject'⟩, hinput, hsame⟩
    obtain ⟨signingInput, found, h, p⟩ := opened
    cases h <;> cases hobject
    cases p <;> cases hobject'
    simp only at hinput hsame hparse hparse'
    simp [openToken, hsplit, hheader, hpayload, hsignature, hraw, hraw', hparse, hparse', hinput,
      hsame]

theorem checkAlgorithm_ok : checkAlgorithm v = .ok () ↔ v.find? "alg" = some (.string "HS256") := by
  rw [← getD_stringClaim (by decide)]
  unfold checkAlgorithm
  dsimp only
  split_ifs with h <;> simp [h]

theorem checkSignature_ok {signingInput signature : Bytes} :
    checkSignature prims options signingInput signature = .ok () ↔
      (options.verifySignature = true → base64UrlDecode signature =
        some (prims.hmacSha256 options.hmacSecret signingInput).toList) := by
  unfold checkSignature
  by_cases hverify : options.verifySignature = true
  · rw [if_pos hverify, forall_prop_of_true hverify]
    cases base64UrlDecode signature with
    | none => simp
    | some provided =>
      dsimp only
      split_ifs with hlength hequal
      · have hne : provided ≠ (prims.hmacSha256 options.hmacSecret signingInput).toList :=
          fun hsame => hlength (congrArg List.length hsame)
        simpa using hne
      · simpa using (constantTimeEquals_iff.mp hequal).symm
      · have hne : provided ≠ (prims.hmacSha256 options.hmacSecret signingInput).toList :=
          fun hsame => hequal (constantTimeEquals_iff.mpr hsame.symm)
        simpa using hne
  · rw [if_neg hverify]
    simp [hverify]

theorem checkTimes_ok {expires : Int} : checkTimes prims options now payload = .ok expires ↔
    numberClaim prims payload "exp" = some expires ∧
      now ≤ toInt64 (expires + options.clockSkewSeconds) ∧
      ∀ n, numberClaim prims payload "nbf" = some n → n ≤ toInt64 (now + options.clockSkewSeconds) := by
  unfold checkTimes
  cases numberClaim prims payload "exp" with
  | none => simp
  | some e =>
    dsimp only
    split_ifs with hexpired
    · simp only [Option.some.injEq, false_iff]
      rintro ⟨rfl, hnow, -⟩
      exact absurd hnow (not_le.mpr hexpired)
    · cases numberClaim prims payload "nbf" with
      | none =>
        simp only [Except.ok.injEq, Option.some.injEq, reduceCtorEq, false_implies, implies_true,
          and_true]
        exact ⟨fun h => ⟨h, h ▸ not_lt.mp hexpired⟩, And.left⟩
      | some n =>
        dsimp only
        split_ifs with hearly
        · simp only [Option.some.injEq, false_iff]
          rintro ⟨-, -, hnbf⟩
          exact absurd (hnbf n rfl) (not_le.mpr hearly)
        · simp only [Except.ok.injEq, Option.some.injEq]
          constructor
          · rintro rfl
            exact ⟨rfl, not_lt.mp hexpired, fun _ hn => hn ▸ not_lt.mp hearly⟩
          · exact And.left

theorem inTime64_iff :
    InTime64 prims options now payload ↔ ∃ e, checkTimes prims options now payload = .ok e := by
  simp only [checkTimes_ok, InTime64]
  constructor
  · rintro ⟨⟨e, he, hnow⟩, hnbf⟩
    exact ⟨e, he, hnow, hnbf⟩
  · rintro ⟨e, he, hnow, hnbf⟩
    exact ⟨⟨e, he, hnow⟩, hnbf⟩

theorem audienceMatches_iff : audienceMatches payload text = true ↔
    payload.find? "aud" = some (.string text) ∨
      ∃ items, payload.find? "aud" = some (.array items) ∧ .string text ∈ items := by
  unfold audienceMatches
  split
  · rename_i s hs
    simp [hs]
  · rename_i items hitems
    rw [List.any_eq_true]
    constructor
    · rintro ⟨item, hitem, hsame⟩
      right
      refine ⟨items, hitems, ?_⟩
      cases item <;> simp_all [Value.asString?]
    · rintro (hstring | ⟨items', hitems', hmem⟩)
      · rw [hitems] at hstring
        cases hstring
      · rw [hitems] at hitems'
        cases hitems'
        exact ⟨.string text, hmem, by simp [Value.asString?]⟩
  · rename_i hstring harray
    constructor
    · exact fun h => absurd h Bool.false_ne_true
    · rintro (h | ⟨items, h, -⟩)
      · exact absurd h (hstring text)
      · exact absurd h (harray items)

theorem checkParties_ok : checkParties options payload = .ok () ↔
    (options.issuer ≠ "" → payload.find? "iss" = some (.string options.issuer)) ∧
      (options.audience ≠ "" → payload.find? "aud" = some (.string options.audience) ∨
        ∃ items, payload.find? "aud" = some (.array items) ∧ .string options.audience ∈ items) := by
  rw [← audienceMatches_iff]
  unfold checkParties
  have hissuer : (options.issuer ≠ "" ∧ (stringClaim payload "iss").getD "" ≠ options.issuer) ↔
      ¬(options.issuer ≠ "" → payload.find? "iss" = some (.string options.issuer)) := by
    rw [Classical.not_imp]
    exact and_congr_right fun hne => not_congr (getD_stringClaim hne)
  have haudience : (options.audience ≠ "" ∧ audienceMatches payload options.audience = false) ↔
      ¬(options.audience ≠ "" → audienceMatches payload options.audience = true) := by
    rw [Classical.not_imp, Bool.not_eq_true]
  split_ifs with h h'
  · rw [hissuer] at h
    exact iff_of_false nofun fun hboth => h hboth.1
  · rw [haudience] at h'
    exact iff_of_false nofun fun hboth => h' hboth.2
  · rw [hissuer, not_not] at h
    rw [haudience, not_not] at h'
    exact iff_of_true rfl ⟨h, h'⟩

theorem checkPartition_ok {requestPartition : String} {expires : Int} :
    checkPartition options (claimsOf prims options payload expires) requestPartition = .ok () ↔
      (options.requirePartitionClaim = true → requestPartition ≠ "" →
        payload.find? options.partitionClaim = some (.string requestPartition)) := by
  unfold checkPartition
  by_cases hasked : options.requirePartitionClaim = true ∧ requestPartition ≠ ""
  · rw [if_pos hasked, forall_prop_of_true hasked.1, forall_prop_of_true hasked.2,
      ← getD_stringClaim hasked.2]
    change (if (stringClaim payload options.partitionClaim).getD "" = "" then _ else
      if (stringClaim payload options.partitionClaim).getD "" ≠ requestPartition then _ else _) = _ ↔ _
    split_ifs with hmissing hother
    · simpa [hmissing] using hasked.2.symm
    · simpa using hother
    · simpa using hother
  · rw [if_neg hasked]
    exact iff_of_true rfl fun hrequired hne => absurd ⟨hrequired, hne⟩ hasked

end Steps

/-! ## What `verify` accepts -/

section Verify
variable {prims : Primitives} {options : LocalJwtOptions} {now : Int} {bearerToken : Bytes}
variable {requestPartition : String} {payload payload' : Value}

theorem bind_eq_ok {α β : Type} {x : Result α} {f : α → Result β} {b : β} :
    (x >>= f) = .ok b ↔ ∃ a, x = .ok a ∧ f a = .ok b := by
  cases x with
  | error e => simp [bind, Except.bind]
  | ok a => simp [bind, Except.bind]

theorem verify_eq_ok {claims : JwtClaims} :
    verify prims options now bearerToken requestPartition = .ok claims ↔
      trim (stripBearer bearerToken) ≠ [] ∧
      (options.verifySignature = true → options.hmacSecret ≠ []) ∧
      ∃ opened expires, openToken prims (trim (stripBearer bearerToken)) = .ok opened ∧
        checkAlgorithm opened.header = .ok () ∧
        checkSignature prims options opened.signingInput opened.signature = .ok () ∧
        checkTimes prims options now opened.payload = .ok expires ∧
        checkParties options opened.payload = .ok () ∧
        claimsOf prims options opened.payload expires = claims ∧
        checkPartition options (claimsOf prims options opened.payload expires) requestPartition =
          .ok () := by
  unfold verify
  dsimp only
  by_cases hempty : trim (stripBearer bearerToken) = []
  · rw [if_pos hempty]
    exact iff_of_false nofun fun h => h.1 hempty
  rw [if_neg hempty]
  by_cases hkey : options.verifySignature = true ∧ options.hmacSecret = []
  · rw [if_pos hkey]
    exact iff_of_false nofun fun h => h.2.1 hkey.1 hkey.2
  rw [if_neg hkey]
  rw [not_and] at hkey
  simp only [bind_eq_ok, pure, Except.pure, Except.ok.injEq]
  constructor
  · rintro ⟨opened, hopen, ⟨⟩, halg, ⟨⟩, hsignature, expires, htimes, ⟨⟩, hparties, ⟨⟩, hpartition,
      hclaims⟩
    exact ⟨hempty, hkey, opened, expires, hopen, halg, hsignature, htimes, hparties, hclaims,
      hpartition⟩
  · rintro ⟨-, -, opened, expires, hopen, halg, hsignature, htimes, hparties, hclaims, hpartition⟩
    exact ⟨opened, hopen, (), halg, (), hsignature, expires, htimes, (), hparties, (), hpartition,
      hclaims⟩

/-- `verify` accepts the tokens that fit and whose times hold in 64 bits. -/
theorem verify_accepts :
    (∃ claims, verify prims options now bearerToken requestPartition = .ok claims) ↔
      ∃ payload, Fit prims options bearerToken requestPartition payload ∧
        InTime64 prims options now payload := by
  rw [exists_congr fun _ => verify_eq_ok]
  constructor
  · rintro ⟨claims, -, hkey, opened, expires, hopen, halg, hsignature, htimes, hparties, rfl, hpartition⟩
    obtain ⟨header, p, signature, hsplit, hheader, hp, hnonempty, hdecodes, hdecodes', hinput,
      rfl⟩ := openToken_ok.mp hopen
    rw [checkSignature_ok, hinput] at hsignature
    refine ⟨opened.payload, ⟨?_, ?_, ?_, ?_⟩, inTime64_iff.mpr ⟨expires, htimes⟩⟩
    · exact ⟨header, p, _, opened.header, hsplit, hheader, hp, hnonempty, hdecodes, hdecodes',
        checkAlgorithm_ok.mp halg, fun hverify => ⟨hkey hverify, hsignature hverify⟩⟩
    · exact (checkParties_ok.mp hparties).1
    · exact (checkParties_ok.mp hparties).2
    · exact checkPartition_ok.mp hpartition
  · rintro ⟨payload, hfit, htimes⟩
    obtain ⟨header, p, signature, headerValue, hsplit, hheader, hp, hnonempty, hdecodes, hdecodes',
      halg, hsigned⟩ := hfit.isSealed
    obtain ⟨expires, htimes⟩ := inTime64_iff.mp htimes
    refine ⟨_, ?_, fun hverify => (hsigned hverify).1, ⟨header ++ 46 :: p, signature, headerValue, payload⟩,
      expires, openToken_ok.mpr ?_, checkAlgorithm_ok.mpr halg,
      checkSignature_ok.mpr fun hverify => (hsigned hverify).2, htimes,
      checkParties_ok.mpr ⟨hfit.issuer, hfit.audience⟩, rfl, checkPartition_ok.mpr hfit.partition⟩
    · intro hempty
      rw [hempty] at hsplit
      cases hsplit
    · exact ⟨header, p, signature, hsplit, hheader, hp, hnonempty, hdecodes, hdecodes', rfl, rfl⟩

/-- A token has one payload. -/
theorem Fit.unique (h : Fit prims options bearerToken requestPartition payload)
    (h' : Fit prims options bearerToken requestPartition payload') : payload = payload' := by
  obtain ⟨_, p, _, _, hsplit, -, -, -, -, ⟨raw, hraw, hparse, -⟩, -, -⟩ := h.isSealed
  obtain ⟨_, p', _, _, hsplit', -, -, -, -, ⟨raw', hraw', hparse', -⟩, -, -⟩ := h'.isSealed
  rw [hsplit] at hsplit'
  cases hsplit'
  rw [hraw] at hraw'
  cases hraw'
  exact Option.some.inj (hparse.symm.trans hparse')

end Verify

/-! ## Where the two readings agree -/

section Times
variable (prims : Primitives) (options : LocalJwtOptions) (now : Int)

/-- The number in `exp` is on the same side of the clock in 64 bits. -/
def ExpRight : Option Value → Prop
  | some (.integer n) => now ≤ toInt64 (toInt64 n + options.clockSkewSeconds) ↔
      now ≤ n + options.clockSkewSeconds
  | some (.float bits) => now ≤ toInt64 (prims.seconds bits + options.clockSkewSeconds) ↔
      (now : ℚ) ≤ doubleValue bits + options.clockSkewSeconds
  | _ => True

/-- The same for `nbf`, which has to be a number if it is there. -/
def NbfRight : Option Value → Prop
  | none => True
  | some (.integer n) => toInt64 n ≤ toInt64 (now + options.clockSkewSeconds) ↔
      n ≤ now + options.clockSkewSeconds
  | some (.float bits) => prims.seconds bits ≤ toInt64 (now + options.clockSkewSeconds) ↔
      doubleValue bits ≤ (now : ℚ) + options.clockSkewSeconds
  | some _ => False

/-- Both times are judged right, or the token is out of time either way. -/
def TimesJudged (payload : Value) : Prop :=
  ExpRight prims options now (payload.find? "exp") ∧ NbfRight prims options now (payload.find? "nbf") ∨
    ¬InTime options now payload ∧ ¬InTime64 prims options now payload

variable {prims options now} {payload : Value} {bits : UInt64} {n : Int}

theorem expRight_iff : ExpRight prims options now (payload.find? "exp") ↔
    ((∃ e, numberClaim prims payload "exp" = some e ∧
        now ≤ toInt64 (e + options.clockSkewSeconds)) ↔
      ∃ x, (payload.find? "exp").bind number? = some x ∧
        (now : ℚ) ≤ x + options.clockSkewSeconds) := by
  unfold numberClaim
  cases payload.find? "exp" with
  | none => simp [ExpRight]
  | some v =>
    cases v with
    | integer n =>
      have hcast : (now : ℚ) ≤ n + options.clockSkewSeconds ↔ now ≤ n + options.clockSkewSeconds := by
        exact_mod_cast Iff.rfl
      simp [ExpRight, number?, hcast]
    | float bits => simp [ExpRight, number?]
    | _ => simp [ExpRight, number?]

theorem nbfRight_iff : NbfRight prims options now (payload.find? "nbf") ↔
    ((∀ n, numberClaim prims payload "nbf" = some n →
        n ≤ toInt64 (now + options.clockSkewSeconds)) ↔
      (payload.find? "nbf" = none ∨ ∃ y, (payload.find? "nbf").bind number? = some y ∧
        y ≤ (now : ℚ) + options.clockSkewSeconds)) := by
  unfold numberClaim
  cases payload.find? "nbf" with
  | none => simp [NbfRight]
  | some v =>
    cases v with
    | integer n =>
      have hcast : (n : ℚ) ≤ now + options.clockSkewSeconds ↔ n ≤ now + options.clockSkewSeconds := by
        exact_mod_cast Iff.rfl
      simp [NbfRight, number?, hcast]
    | float bits => simp [NbfRight, number?]
    | _ => simp [NbfRight, number?]

/-- Two conjunctions agree if their parts do, or if both fail. -/
theorem and_agree {a b c d : Prop} :
    (a ↔ c) ∧ (b ↔ d) ∨ ¬(c ∧ d) ∧ ¬(a ∧ b) ↔ (a ∧ b ↔ c ∧ d) := by
  tauto

theorem timesJudged_iff : TimesJudged prims options now payload ↔
    (InTime64 prims options now payload ↔ InTime options now payload) := by
  unfold TimesJudged InTime64 InTime
  rw [expRight_iff, nbfRight_iff]
  exact and_agree

/-- Whole seconds that fit, with the skew added, are judged right. -/
theorem expRight_of_integer (hn : -2 ^ 63 ≤ n ∧ n < 2 ^ 63)
    (hsum : -2 ^ 63 ≤ n + options.clockSkewSeconds ∧ n + options.clockSkewSeconds < 2 ^ 63) :
    ExpRight prims options now (some (.integer n)) := by
  dsimp only [ExpRight]
  rw [toInt64_eq_self hn, toInt64_eq_self hsum]

theorem nbfRight_of_integer (hn : -2 ^ 63 ≤ n ∧ n < 2 ^ 63)
    (hsum : -2 ^ 63 ≤ now + options.clockSkewSeconds ∧ now + options.clockSkewSeconds < 2 ^ 63) :
    NbfRight prims options now (some (.integer n)) := by
  dsimp only [NbfRight]
  rw [toInt64_eq_self hn, toInt64_eq_self hsum]

theorem floor_scaled (mantissa e s : ℕ) :
    ⌊(mantissa : ℚ) * 2 ^ e / 2 ^ s⌋ = (mantissa * 2 ^ e / 2 ^ s : ℕ) := by
  have hdiv := Rat.floor_natCast_div_natCast (mantissa * 2 ^ e) (2 ^ s)
  push_cast at hdiv ⊢
  exact hdiv

theorem scaled_eq_zero {fraction e s : ℕ} (h : fraction < 2 ^ 64) (he : e ≤ 1) (hs : 65 ≤ s) :
    fraction * 2 ^ e / 2 ^ s = 0 := by
  apply Nat.div_eq_of_lt
  calc
    fraction * 2 ^ e ≤ fraction * 2 ^ 1 :=
      Nat.mul_le_mul_left _ (Nat.pow_le_pow_right (by decide) he)
    _ < 2 ^ 64 * 2 ^ 1 := Nat.mul_lt_mul_of_pos_right h (by decide)
    _ = 2 ^ 65 := (pow_add 2 64 1).symm
    _ ≤ 2 ^ s := Nat.pow_le_pow_right (by decide) hs

/-- A double that is not negative loses its fraction. -/
theorem truncated_eq_floor (h : bits >>> 63 = 0) :
    truncated bits = ⌊doubleValue bits⌋ := by
  unfold truncated doubleValue
  dsimp only
  rw [if_pos h, if_pos h]
  generalize (bits >>> 52 &&& 0x7FF).toNat = exponent
  generalize hfraction : (bits &&& 0xFFFFFFFFFFFFF).toNat = fraction
  rw [floor_scaled]
  by_cases hzero : exponent = 0
  · -- without an exponent the number is less than one
    have hless : fraction < 2 ^ 64 := hfraction ▸ UInt64.toNat_lt _
    have hsmall : ∀ e ≤ 1, fraction * 2 ^ e / 2 ^ 1075 = 0 :=
      fun e he => scaled_eq_zero hless he (by decide)
    subst hzero
    rw [if_pos rfl, hsmall 0 (by decide), hsmall _ (by decide)]
  · rw [if_neg hzero, max_eq_right (Nat.one_le_iff_ne_zero.mpr hzero)]

/-- The fraction of an `exp` that is not negative makes no difference. -/
theorem expRight_of_float (hsign : bits >>> 63 = 0) (hfits : ⌊doubleValue bits⌋ < 2 ^ 63)
    (hsum : -2 ^ 63 ≤ ⌊doubleValue bits⌋ + options.clockSkewSeconds ∧
      ⌊doubleValue bits⌋ + options.clockSkewSeconds < 2 ^ 63) :
    ExpRight prims options now (some (.float bits)) := by
  have htruncated := truncated_eq_floor hsign
  have hlow : 0 ≤ truncated bits := by
    unfold truncated
    dsimp only
    rw [if_pos hsign]
    exact Int.natCast_nonneg _
  have hseconds : prims.seconds bits = ⌊doubleValue bits⌋ := by
    unfold Primitives.seconds
    rw [if_pos ⟨by omega, htruncated ▸ hfits⟩, htruncated]
  dsimp only [ExpRight]
  rw [hseconds, toInt64_eq_self hsum, ← sub_le_iff_le_add, Int.le_floor, ← sub_le_iff_le_add]
  push_cast
  rfl

end Times

/-- `verify` follows the policy exactly if the times of every token that fits are judged right or
refused either way. -/
theorem verify_follows_policy (prims : Primitives) (options : LocalJwtOptions) (now : Int)
    (bearerToken : Bytes) (requestPartition : String) :
    ((∃ claims, verify prims options now bearerToken requestPartition = .ok claims) ↔
      Acceptable prims options now bearerToken requestPartition) ↔
    ∀ payload, Fit prims options bearerToken requestPartition payload →
      TimesJudged prims options now payload := by
  rw [verify_accepts]
  unfold Acceptable
  constructor
  · intro h payload hfit
    rw [timesJudged_iff]
    constructor
    · intro htimes
      obtain ⟨found, hfound, hin⟩ := h.mp ⟨payload, hfit, htimes⟩
      exact hfit.unique hfound ▸ hin
    · intro hin
      obtain ⟨found, hfound, htimes⟩ := h.mpr ⟨payload, hfit, hin⟩
      exact hfit.unique hfound ▸ htimes
  · intro h
    exact exists_congr fun payload => and_congr_right fun hfit => timesJudged_iff.mp (h payload hfit)

/-! ## A time that is a text -/

section Sample

private def headerText : Bytes := octets "\x7b\"alg\":\"HS256\"\x7d"

private def payloadText : Bytes :=
  octets "\x7b\"data-partition-id\":\"p\",\"exp\":2000,\"nbf\":\"later\"\x7d"

/-- The code of the sample token under the key `secret`. -/
private def digest : Digest256 :=
  #v[219, 96, 123, 79, 216, 128, 19, 35, 53, 78, 191, 131, 116, 235, 47, 152, 132, 81, 152, 52, 5,
    246, 48, 150, 113, 236, 253, 110, 43, 26, 160, 65]

private def sampleParse (text : Bytes) : Option Value :=
  if text = headerText then some (.object [("alg", .string "HS256")])
  else if text = payloadText then
    some (.object
      [("data-partition-id", .string "p"), ("exp", .integer 2000), ("nbf", .string "later")])
  else none

private def samplePrimitives : Primitives where
  hmacSha256 _ _ := digest
  parse := sampleParse
  outOfRange _ := -2 ^ 63

private def sampleOptions : LocalJwtOptions := { hmacSecret := octets "secret" }

private def sampleToken : Bytes :=
  octets "Bearer eyJhbGciOiJIUzI1NiJ9." ++
    octets "eyJkYXRhLXBhcnRpdGlvbi1pZCI6InAiLCJleHAiOjIwMDAsIm5iZiI6ImxhdGVyIn0." ++
    octets "22B7T9iAEyM1Tr-DdOsvmIRRmDQF9jCWcez9bisaoEE"

/-- A token that may be used from `later` on is accepted. -/
theorem text_nbf_accepted :
    ¬((∃ claims, verify samplePrimitives sampleOptions 1000 sampleToken "p" = .ok claims) ↔
      Acceptable samplePrimitives sampleOptions 1000 sampleToken "p") := by
  have haccepts : (verify samplePrimitives sampleOptions 1000 sampleToken "p").isOk = true := by
    decide +kernel
  intro h
  obtain ⟨payload, hfit, ⟨x, hexp, -⟩, hnbf⟩ := h.mp (by
    cases hverify : verify samplePrimitives sampleOptions 1000 sampleToken "p" with
    | ok claims => exact ⟨claims, rfl⟩
    | error e =>
      rw [hverify] at haccepts
      cases haccepts)
  obtain ⟨_, p, _, _, -, -, -, -, -, ⟨raw, -, hparse, -⟩, -, -⟩ := hfit.isSealed
  have hparse' : sampleParse raw = some payload := hparse
  unfold sampleParse at hparse'
  split_ifs at hparse'
  · cases hparse'
    cases hexp
  · cases hparse'
    rcases hnbf with hnone | ⟨y, hy, -⟩
    · cases hnone
    · cases hy

end Sample

end FileService.Auth
