import FileService.Transfer.Token

/-!
# Issued tokens are the accepted ones

The code is assumed to be ideal: a signature under the key of a codec has been
made for an issued URL. As neither the token nor the expiry has a dot in it,
the signed message then tells them apart, and the payload is read as it was
written.
-/
namespace FileService.Transfer
open FileService.Common FileService.Common.Crypto FileService.Domain
open FileService.Common.Json.Value (TextCodec)

/-! ## Decimal numbers are read back -/

section Decimal
variable {n : Nat}

theorem digitOctet_toNat {d : Nat} (h : d < 10) : (digitOctet d).toNat = 48 + d := by
  have hmod : (48 + d) % 256 = 48 + d := by omega
  simpa [digitOctet] using hmod

theorem isDigitOctet_digitOctet {d : Nat} (h : d < 10) : isDigitOctet (digitOctet d) = true := by
  simp only [isDigitOctet, digitOctet_toNat h, Bool.and_eq_true, decide_eq_true_eq]
  omega

theorem isDigitOctet_of_mem {c : UInt8} (h : c ∈ decimalNat n) : isDigitOctet c = true := by
  unfold decimalNat at h
  split at h
  · rw [List.mem_singleton.mp h]
    decide
  · simp only [List.mem_map, List.mem_reverse] at h
    obtain ⟨d, hd, rfl⟩ := h
    exact isDigitOctet_digitOctet (Nat.digits_lt_base (by decide) hd)

theorem decimalNat_ne_nil : decimalNat n ≠ [] := by
  unfold decimalNat
  split
  · simp
  · rename_i hn
    simpa [Nat.digits_ne_nil_iff_ne_zero] using hn

theorem decimalValue_digits (digits : List Nat) (h : ∀ d ∈ digits, d < 10) :
    decimalValue (digits.reverse.map digitOctet) = Nat.ofDigits 10 digits := by
  rw [decimalValue, List.map_reverse, List.foldl_reverse]
  induction digits with
  | nil => rfl
  | cons d digits ih =>
    have hd := digitOctet_toNat (h d List.mem_cons_self)
    simp only [List.map_cons, List.foldr_cons, Nat.ofDigits_cons, hd,
      ih fun e he => h e (List.mem_cons_of_mem _ he)]
    omega

theorem decimalValue_decimalNat : decimalValue (decimalNat n) = n := by
  unfold decimalNat
  split
  · rename_i hn
    rw [hn]
    rfl
  · rw [decimalValue_digits _ fun d hd => Nat.digits_lt_base (by decide) hd, Nat.ofDigits_digits]

/-- A number written in digits only is read as that number. -/
theorem stoll_digits {text : Bytes} (hne : text ≠ []) (hdigits : ∀ c ∈ text, isDigitOctet c = true)
    (hfits : decimalValue text < 2 ^ 63) : stoll text = some (decimalValue text) := by
  obtain ⟨c, rest, rfl⟩ := List.exists_cons_of_ne_nil hne
  have hc := hdigits c List.mem_cons_self
  have hspace : isSpaceOctet c = false := not_space_of_digit hc
  have hall : (c :: rest).takeWhile isDigitOctet = c :: rest := List.takeWhile_eq_self_iff.mpr hdigits
  have hsign : signOf (c :: rest) = (false, c :: rest) := by
    have hminus : c ≠ 45 := by
      rintro rfl
      exact absurd hc (by decide)
    have hplus : c ≠ 43 := by
      rintro rfl
      exact absurd hc (by decide)
    simp [signOf, hminus, hplus]
  rw [stoll, List.dropWhile_cons_of_neg (by simp [hspace]), hsign]
  simpa [hall] using hfits

theorem stoll_decimal {n : Int} (hpos : 0 < n) (hfits : n < 2 ^ 63) : stoll (decimal n) = some n := by
  have hnonneg : ¬n < 0 := by omega
  rw [decimal, if_neg hnonneg, stoll_digits decimalNat_ne_nil fun c hc => isDigitOctet_of_mem hc]
  · rw [decimalValue_decimalNat]
    simp [hpos.le]
  · rw [decimalValue_decimalNat]
    omega

theorem decimal_no_dot {n : Int} : 46 ∉ decimal n := by
  have hdigits : ∀ m, (46 : UInt8) ∉ decimalNat m := fun m h =>
    absurd (isDigitOctet_of_mem h) (by decide)
  unfold decimal
  split
  · simp [hdigits]
  · exact hdigits _

end Decimal

/-! ## Issues -/

/-- A call of `Encode` that has returned a URL. The expiry is a signed 64-bit integer. -/
structure Issue (prims : Primitives) where
  codec : HmacTransferTokenCodec
  token : TransferToken
  nonce : String
  baseUrl : Bytes
  url : Bytes
  fits : token.expiresAtEpochSeconds < 2 ^ 63
  produced : codec.encode prims token nonce baseUrl = .ok url

section Issue
variable {prims : Primitives}

/-- The parts that the URL of an issue carries. -/
def Issue.triple (i : Issue prims) : Triple := i.codec.triple prims i.token i.nonce

/-- What a reader is to find in the payload. -/
def Issue.decoded (i : Issue prims) : TransferToken := { i.token with keyId := i.codec.keyId }

/-- A decoder takes the issues of its own key id, or all if it has none. -/
def Issue.AcceptedBy (i : Issue prims) (codec : HmacTransferTokenCodec) : Prop :=
  codec.keyId = "" ∨ i.codec.keyId = codec.keyId

theorem Issue.checked (i : Issue prims) :
    i.codec.secret ≠ [] ∧ isKnownOp i.token.op = true ∧ 0 < i.token.expiresAtEpochSeconds ∧
      i.url = HmacTransferTokenCodec.urlOf i.baseUrl i.triple := by
  have h := i.produced
  unfold HmacTransferTokenCodec.encode at h
  split_ifs at h with hsecret hpartition hcontainer hkey hop hexp
  exact ⟨hsecret, Bool.of_not_eq_false hop, not_le.mp hexp, (Except.ok.inj h).symm⟩

/-! ## The payload is read as it was written -/

/-- What the reader of JSON makes of a written payload; no JSON text is empty. -/
structure Issue.Written (i : Issue prims) : Prop where
  reads : prims.json.Reads (i.codec.payload i.token i.nonce)
  nonempty : prims.json.dump (i.codec.payload i.token i.nonce) ≠ ""

variable (i : Issue prims) (codec : HmacTransferTokenCodec) (now : Int)

/-- The payload of an issue, as it is read. -/
def Issue.value : Json.Value := (i.codec.payload i.token i.nonce).nullified

open HmacTransferTokenCodec in
theorem text?_value :
    text? i.value "partition" = some i.token.partition ∧
      text? i.value "file_id" = some i.token.fileId ∧
      text? i.value "container" = some i.token.container ∧
      text? i.value "object_key" = some i.token.objectKey ∧
      text? i.value "zone" = some (storageZoneName i.token.zone) ∧
      text? i.value "op" = some i.token.op ∧
      text? i.value "key_id" = (if i.codec.keyId = "" then none else some i.codec.keyId) := by
  have hempty : ∀ name, (Json.Value.object []).find? name = none := fun _ => rfl
  by_cases hkey : i.codec.keyId = "" <;>
    simp [text?, Issue.value, payload, hkey, hempty, Json.Value.nullified, Json.Value.asString?]

theorem find?_exp_value : i.value.find? "exp" = some (.integer i.token.expiresAtEpochSeconds) := by
  by_cases hkey : i.codec.keyId = "" <;>
    simp [Issue.value, HmacTransferTokenCodec.payload, hkey, Json.Value.nullified]

theorem checkKeyId_value :
    codec.checkKeyId (HmacTransferTokenCodec.text? i.value "key_id") = .ok () ↔
      i.AcceptedBy codec := by
  rw [(text?_value i).2.2.2.2.2.2, Issue.AcceptedBy]
  unfold HmacTransferTokenCodec.checkKeyId
  by_cases hany : codec.keyId = ""
  · simp [hany]
  · by_cases hnone : i.codec.keyId = ""
    · have hother : "" ≠ codec.keyId := fun h => hany h.symm
      simp [hany, hnone, hother]
    · by_cases hsame : i.codec.keyId = codec.keyId
      · simp [hany, hsame]
      · simp [hany, hnone, hsame]

theorem checkExpiry_value :
    HmacTransferTokenCodec.checkExpiry now (decimal i.token.expiresAtEpochSeconds) i.value =
      if i.token.expiresAtEpochSeconds ≤ now then .error (unauthenticated "transfer token 已过期")
      else .ok i.token.expiresAtEpochSeconds := by
  obtain ⟨-, -, hpos, -⟩ := i.checked
  have hint : toInt64 i.token.expiresAtEpochSeconds = i.token.expiresAtEpochSeconds :=
    toInt64_eq_self ⟨by omega, i.fits⟩
  simp [HmacTransferTokenCodec.checkExpiry, find?_exp_value, stoll_decimal hpos i.fits, hint]

/-- A payload is accepted for its key id and until it expires. -/
theorem readPayload_value {out : TransferToken} :
    codec.readPayload now (decimal i.token.expiresAtEpochSeconds) i.value = .ok out ↔
      i.AcceptedBy codec ∧ now < i.token.expiresAtEpochSeconds ∧ out = i.decoded := by
  obtain ⟨hpartition, hfile, hcontainer, hkey, hzone, hop, hkeyId⟩ := text?_value i
  have hknown := i.checked.2.1
  have hzoneName : parseStorageZone (storageZoneName i.token.zone) = some i.token.zone := by
    cases i.token.zone <;> rfl
  have hkeyId' : (HmacTransferTokenCodec.text? i.value "key_id").getD "" = i.codec.keyId := by
    rw [hkeyId]
    split
    · rename_i hnone
      exact hnone.symm
    · rfl
  simp only [HmacTransferTokenCodec.readPayload, HmacTransferTokenCodec.requireText, hpartition,
    hcontainer, hkey, hop, hzone, checkExpiry_value, hfile]
  rw [← checkKeyId_value]
  cases hcheck : codec.checkKeyId (HmacTransferTokenCodec.text? i.value "key_id") with
  | error e => simp [bind, Except.bind, hknown]
  | ok _ =>
    by_cases hlate : i.token.expiresAtEpochSeconds ≤ now
    · simp [bind, Except.bind, hknown, hzoneName, hlate]
    · have hearly : now < i.token.expiresAtEpochSeconds := not_le.mp hlate
      simp [bind, Except.bind, hknown, hzoneName, hlate, hearly, hkeyId', Issue.decoded, pure,
        Except.pure, eq_comm]

/-! ## Decoding -/

theorem base64UrlEncode_ne_nil {data : Bytes} (h : data ≠ []) : base64UrlEncode data ≠ [] := by
  intro hnil
  have hdecode := base64UrlDecode_encode data
  rw [hnil] at hdecode
  exact h (Option.some.inj hdecode).symm

theorem octets_ne_nil {text : String} (h : text ≠ "") : octets text ≠ [] := by
  intro hnil
  have htext := textOf_octets text
  rw [hnil] at htext
  exact h (Option.some.inj (htext.symm.trans (textOf_octets "")))

theorem decimal_ne_nil {n : Int} : decimal n ≠ [] := by
  unfold decimal
  split
  · simp
  · exact decimalNat_ne_nil

/-- A code has 32 octets, so no signature is empty. -/
theorem computeSignature_ne_nil (token expires : Bytes) :
    codec.computeSignature prims token expires ≠ [] := by
  apply base64UrlEncode_ne_nil
  intro hnil
  have hlength := (prims.hmacSha256 (codec.signingKey prims)
    (HmacTransferTokenCodec.signedMessage token expires)).length_toList
  rw [hnil] at hlength
  cases hlength

/-- The triple of an issue, at a decoder with the same secret. -/
theorem decode_triple (hwritten : i.Written) (hsecret : i.codec.secret = codec.secret)
    {out : TransferToken} :
    codec.decode prims now i.triple = .ok out ↔
      i.AcceptedBy codec ∧ now < i.token.expiresAtEpochSeconds ∧ out = i.decoded := by
  have hnonempty : codec.secret ≠ [] := hsecret ▸ i.checked.1
  have htoken : i.triple.token ≠ [] := base64UrlEncode_ne_nil (octets_ne_nil hwritten.nonempty)
  have hexpires : i.triple.expires ≠ [] := decimal_ne_nil
  have hsignature : codec.computeSignature prims i.triple.token i.triple.expires =
      i.triple.signature := by
    simp only [Issue.triple, HmacTransferTokenCodec.triple, HmacTransferTokenCodec.computeSignature,
      HmacTransferTokenCodec.signingKey, hsecret]
  have hpresent : i.triple.signature ≠ [] := hsignature ▸ computeSignature_ne_nil codec _ _
  have hequal : ¬constantTimeEquals i.triple.signature i.triple.signature = false := by
    simp [constantTimeEquals_iff.mpr]
  have hraw : base64UrlDecode i.triple.token =
      some (octets (prims.json.dump (i.codec.payload i.token i.nonce))) :=
    base64UrlDecode_encode _
  have hread : prims.json.parseObject (prims.json.dump (i.codec.payload i.token i.nonce)) =
      .ok i.value := hwritten.reads
  have hneither : ¬(i.triple.expires = [] ∨ i.triple.signature = []) :=
    not_or.mpr ⟨hexpires, hpresent⟩
  rw [HmacTransferTokenCodec.decode, if_neg hnonempty, if_neg htoken, if_neg hneither, hsignature,
    if_neg hequal, hraw]
  simp only [textOf_octets, Option.map_some, hread]
  exact readPayload_value i codec now

/-! ## Ideal signatures -/

/-- Nobody but the issues makes signatures under the key of the decoder. -/
def Unforged (issues : List (Issue prims)) (codec : HmacTransferTokenCodec) (signature : Bytes) :
    Prop :=
  ∀ message, signature = base64UrlEncode (prims.hmacSha256 (codec.signingKey prims) message).toList →
    ∃ i ∈ issues, i.codec.signingKey prims = codec.signingKey prims ∧
      HmacTransferTokenCodec.signedMessage i.triple.token i.triple.expires = message

/-- No other secret of an issue has the signing key of the decoder. -/
def KeysApart (issues : List (Issue prims)) (codec : HmacTransferTokenCodec) : Prop :=
  ∀ i ∈ issues, i.codec.signingKey prims = codec.signingKey prims → i.codec.secret = codec.secret

/-- A signed message tells the token and the expiry of an issue apart. -/
theorem signedMessage_inj {token expires : Bytes}
    (h : HmacTransferTokenCodec.signedMessage i.triple.token i.triple.expires =
      HmacTransferTokenCodec.signedMessage token expires) :
    i.triple.token = token ∧ i.triple.expires = expires := by
  have htoken : 46 ∉ i.triple.token := fun hdot => (mem_base64UrlEncode _ hdot).1 rfl
  have hexpires : 46 ∉ i.triple.expires := decimal_no_dot
  obtain ⟨ht, -, he⟩ := (List.append_cons_inj_of_notMem htoken hexpires).mp h
  exact ⟨ht, he⟩

theorem signature_of_decode {t : Triple} {out : TransferToken}
    (h : codec.decode prims now t = .ok out) :
    codec.computeSignature prims t.token t.expires = t.signature := by
  unfold HmacTransferTokenCodec.decode at h
  split_ifs at h with hsecret htoken hneither hequal
  exact constantTimeEquals_iff.mp (Bool.of_not_eq_false hequal)

/-- The accepted triples are those of the issues under the same secret. -/
theorem decode_ok_iff {issues : List (Issue prims)} {t : Triple} {out : TransferToken}
    (hwritten : ∀ i ∈ issues, i.Written) (hunforged : Unforged issues codec t.signature)
    (hkeys : KeysApart issues codec) :
    codec.decode prims now t = .ok out ↔
      ∃ i ∈ issues, i.triple = t ∧ i.codec.secret = codec.secret ∧ i.AcceptedBy codec ∧
        now < i.token.expiresAtEpochSeconds ∧ out = i.decoded := by
  constructor
  · intro h
    have hsignature := signature_of_decode codec now h
    obtain ⟨i, hi, hkey, hmessage⟩ := hunforged _ hsignature.symm
    have hsecret := hkeys i hi hkey
    obtain ⟨htoken, hexpires⟩ := signedMessage_inj i hmessage
    have hsigned : i.triple.signature = t.signature := by
      rw [← hsignature, ← htoken, ← hexpires]
      simp only [Issue.triple, HmacTransferTokenCodec.triple,
        HmacTransferTokenCodec.computeSignature, hkey]
    have htriple : i.triple = t := by
      cases t
      exact congr (congr (congrArg Triple.mk htoken) hexpires) hsigned
    rw [← htriple] at h
    exact ⟨i, hi, htriple, hsecret, (decode_triple i codec now (hwritten i hi) hsecret).mp h⟩
  · rintro ⟨i, hi, rfl, hsecret, hout⟩
    exact (decode_triple i codec now (hwritten i hi) hsecret).mpr hout

end Issue

end FileService.Transfer
