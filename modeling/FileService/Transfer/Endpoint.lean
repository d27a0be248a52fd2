import FileService.Domain.Ports
import FileService.Interaction.Trace
import FileService.Transfer.Issued

/-!
# The transfer endpoint

A request is resolved to the payload of its token, and only the object named
there is touched. A request without a partition is not bound to one.
-/
namespace FileService.Transfer
open FileService.Common FileService.Common.Crypto FileService.Domain FileService.Interaction
open FileService.Common.Json.Value (TextCodec)

structure TransferRequest where
  triple : Triple
  partition : String := ""
deriving DecidableEq, Repr

structure TransferEndpoint where
  prims : Primitives
  codec : HmacTransferTokenCodec

def denied (message : String) : Error := err .permissionDenied message

def objectRefFromToken (token : TransferToken) : ObjectRef :=
  { container := token.container, key := token.objectKey }

namespace TransferEndpoint
variable (endpoint : TransferEndpoint) (now : Int) (request : TransferRequest)

/-- `Resolve`: the payload, if it is for this operation and this partition. -/
def resolve (expectedOp : String) : Result TransferToken :=
  match endpoint.codec.decode endpoint.prims now request.triple with
  | .error e => .error e
  | .ok token =>
    if token.op ≠ expectedOp then
      .error (denied ("transfer token 的操作类型不匹配（期望 " ++ expectedOp ++ "，实际 " ++ token.op ++ "）"))
    else if request.partition ≠ "" ∧ request.partition ≠ token.partition then
      .error (denied "transfer token 与请求的 partition 不一致")
    else if token.container = "" ∨ token.objectKey = "" then
      .error (unauthenticated "transfer token 缺少 container/object_key")
    else .ok token

/-- `Put` -/
def put (body : Bytes) : Action Unit := do
  let token ← Action.tryResult (endpoint.resolve now request "put")
  let ref := objectRefFromToken token
  let store ← Action.tryResult (← Action.ask (.forPartition token.partition token.zone))
  Action.tryResult (← Action.ask (.blobs store (.ensureContainer ref.container)))
  Action.tryResult (← Action.ask (.blobs store (.put ref body {})))

/-- `Stat`: an object that does not exist is an error. -/
def stat : Action ObjectStat := do
  let token ← Action.tryResult (endpoint.resolve now request "get")
  let ref := objectRefFromToken token
  let store ← Action.tryResult (← Action.ask (.forPartition token.partition token.zone))
  let stat ← Action.tryResult (← Action.ask (.blobs store (.stat ref)))
  if stat.exists = false then
    Action.fail (err .notFound ("传输目标对象不存在：" ++ ref.key))
  return stat

/-- `Get` -/
def get (range : Domain.ByteRange) : Action Bytes := do
  let token ← Action.tryResult (endpoint.resolve now request "get")
  let ref := objectRefFromToken token
  let store ← Action.tryResult (← Action.ask (.forPartition token.partition token.zone))
  Action.tryResult (← Action.ask (.blobs store (.get ref range)))

end TransferEndpoint

/-! ## What a request touches -/

/-- The calls of a store that a payload allows. -/
def Allows (token : TransferToken) : BlobCall → Prop
  | .ensureContainer container => token.op = "put" ∧ container = token.container
  | .put ref _ _ => token.op = "put" ∧ ref = objectRefFromToken token
  | .get ref _ => token.op = "get" ∧ ref = objectRefFromToken token
  | .stat ref => token.op = "get" ∧ ref = objectRefFromToken token
  | _ => False

/-- All calls are about the object of the payload, in the store of its partition and zone. -/
def Touches (token : TransferToken) (t : Trace ports) : Prop :=
  ∀ o ∈ t, o.op = .forPartition token.partition token.zone ∨
    ∃ store call, o.op = .blobs store call ∧ Allows token call ∧
      (⟨.forPartition token.partition token.zone, .ok store⟩ : Occurrence ports) ∈ t

inductive TransferCall where
  | put (body : Bytes)
  | stat
  | get (range : Domain.ByteRange)

/-- A call of the endpoint makes the calls of the trace. -/
def TransferEndpoint.Makes (endpoint : TransferEndpoint) (now : Int) (request : TransferRequest)
    (t : Trace ports) : TransferCall → Prop
  | .put body => ∃ out, (endpoint.put now request body).run.Emits t out
  | .stat => ∃ out, (endpoint.stat now request).run.Emits t out
  | .get range => ∃ out, (endpoint.get now request range).run.Emits t out

section Touching
variable {endpoint : TransferEndpoint} {now : Int} {request : TransferRequest} {op : String}
variable {token : TransferToken} {t : Trace ports}

theorem resolve_ok (h : endpoint.resolve now request op = .ok token) :
    endpoint.codec.decode endpoint.prims now request.triple = .ok token ∧ token.op = op ∧
      (request.partition = "" ∨ request.partition = token.partition) := by
  unfold TransferEndpoint.resolve at h
  cases hdecode : endpoint.codec.decode endpoint.prims now request.triple with
  | error e => simp [hdecode] at h
  | ok decoded =>
    simp only [hdecode] at h
    split_ifs at h with hop hpartition hempty
    cases h
    exact ⟨rfl, not_not.mp hop, by tauto⟩

/-- Whatever follows on the store of a payload, as long as the payload allows it. -/
theorem touches_of_emits {α : Type} (op : String) {f : TransferToken → StoreId → Action α}
    {out : Except Exit α}
    (hf : ∀ token store t out, endpoint.resolve now request op = .ok token →
      (f token store).run.Emits t out →
      ∀ o ∈ t, ∃ call, o.op = .blobs store call ∧ Allows token call)
    (h : (do
      let token ← Action.tryResult (endpoint.resolve now request op)
      let store ← Action.tryResult (← Action.ask (.forPartition token.partition token.zone))
      f token store : Action α).run.Emits t out) :
    t = [] ∨ ∃ token, endpoint.resolve now request op = .ok token ∧ Touches token t := by
  cases hresolve : endpoint.resolve now request op with
  | error e =>
    rw [hresolve] at h
    exact .inl h.1
  | ok token =>
    rw [hresolve] at h
    obtain ⟨store, rest, rfl, h⟩ := h
    refine .inr ⟨token, rfl, ?_⟩
    cases store with
    | error e =>
      obtain ⟨rfl, -⟩ := h
      intro o ho
      exact .inl (by rw [List.mem_singleton.mp ho])
    | ok store =>
      intro o ho
      rcases List.mem_cons.mp ho with rfl | ho
      · exact .inl rfl
      · obtain ⟨call, hcall, hallows⟩ := hf token store rest out hresolve h o ho
        exact .inr ⟨store, call, hcall, hallows, List.mem_cons_self⟩

theorem touches_of_makes {call : TransferCall} (h : endpoint.Makes now request t call) :
    t = [] ∨ ∃ op token, endpoint.resolve now request op = .ok token ∧ Touches token t := by
  cases call with
  | put body =>
    obtain ⟨out, h⟩ := h
    apply (touches_of_emits "put" _ h).imp_right fun ⟨token, ht⟩ => ⟨"put", token, ht⟩
    intro token store t out hresolve h o ho
    have hop := (resolve_ok hresolve).2.1
    obtain ⟨created, rest, rfl, h⟩ := h
    rcases List.mem_cons.mp ho with rfl | hlater
    · exact ⟨_, rfl, hop, rfl⟩
    · cases created with
      | error e =>
        obtain ⟨rfl, -⟩ := h
        cases hlater
      | ok _ =>
        obtain ⟨stored, last, rfl, h⟩ := h
        have hlast : last = [] := by cases stored <;> exact h.1
        rw [hlast, List.mem_singleton] at hlater
        subst hlater
        exact ⟨_, rfl, hop, rfl⟩
  | stat =>
    obtain ⟨out, h⟩ := h
    apply (touches_of_emits "get" _ h).imp_right fun ⟨token, ht⟩ => ⟨"get", token, ht⟩
    intro token store t out hresolve h o ho
    obtain ⟨stat, rest, rfl, h⟩ := h
    have hlast : rest = [] := by
      cases stat with
      | error e => exact h.1
      | ok stat =>
        obtain ⟨size, contentType, checksum, algorithm, modified, present⟩ := stat
        cases present <;> exact h.1
    rw [hlast, List.mem_singleton] at ho
    subst ho
    exact ⟨_, rfl, (resolve_ok hresolve).2.1, rfl⟩
  | get range =>
    obtain ⟨out, h⟩ := h
    apply (touches_of_emits "get" _ h).imp_right fun ⟨token, ht⟩ => ⟨"get", token, ht⟩
    intro token store t out hresolve h o ho
    obtain ⟨data, rest, rfl, h⟩ := h
    have hlast : rest = [] := by cases data <;> exact h.1
    rw [hlast, List.mem_singleton] at ho
    subst ho
    exact ⟨_, rfl, (resolve_ok hresolve).2.1, rfl⟩

end Touching

/-- The accepted triples are those of the issues, and only the object of an issue is touched:
by its operation, and for its partition where the request names one. -/
theorem transfers_are_issued {endpoint : TransferEndpoint} {issues : List (Issue endpoint.prims)}
    {request : TransferRequest} (hwritten : ∀ i ∈ issues, i.Written)
    (hunforged : Unforged issues endpoint.codec request.triple.signature)
    (hkeys : KeysApart issues endpoint.codec) (now : Int) :
    (∀ out, endpoint.codec.decode endpoint.prims now request.triple = .ok out ↔
      ∃ i ∈ issues, i.triple = request.triple ∧ i.codec.secret = endpoint.codec.secret ∧
        i.AcceptedBy endpoint.codec ∧ now < i.token.expiresAtEpochSeconds ∧ out = i.decoded) ∧
    ∀ call t, endpoint.Makes now request t call → t = [] ∨
      ∃ i ∈ issues, i.triple = request.triple ∧ i.codec.secret = endpoint.codec.secret ∧
        i.AcceptedBy endpoint.codec ∧ now < i.token.expiresAtEpochSeconds ∧
        (request.partition = "" ∨ request.partition = i.token.partition) ∧ Touches i.decoded t := by
  constructor
  · intro out
    exact decode_ok_iff endpoint.codec now hwritten hunforged hkeys
  · intro call t hmakes
    apply (touches_of_makes hmakes).imp_right
    rintro ⟨op, token, hresolve, htouches⟩
    obtain ⟨hok, -, hpartition⟩ := resolve_ok hresolve
    obtain ⟨i, hi, htriple, hsecret, haccepted, hearly, rfl⟩ :=
      (decode_ok_iff endpoint.codec now hwritten hunforged hkeys).mp hok
    exact ⟨i, hi, htriple, hsecret, haccepted, hearly, hpartition, htouches⟩

/-! ## One issued download -/

section Sample

def sampleToken : TransferToken where
  partition := "p"
  fileId := "f"
  container := "c"
  objectKey := "k"
  op := "get"
  expiresAtEpochSeconds := 100

def sampleCodec : HmacTransferTokenCodec where
  secret := octets "s3cret"

def sampleNonce : String := "0011223344556677"

def sampleText : String :=
  "\x7b\"container\":\"c\",\"exp\":100,\"file_id\":\"f\",\"nonce\":\"0011223344556677\"," ++
    "\"object_key\":\"k\",\"op\":\"get\",\"partition\":\"p\",\"zone\":\"STAGING\"\x7d"

def sampleMessage : Bytes :=
  HmacTransferTokenCodec.signedMessage (base64UrlEncode (octets sampleText)) (decimal 100)

/-- The digest of the key domain under the secret. -/
def domainDigest : Digest256 :=
  ⟨#[204, 156, 35, 142, 208, 241, 49, 66, 36, 98, 254, 16, 168, 166, 145, 13,
    121, 253, 233, 133, 16, 9, 217, 74, 117, 244, 196, 65, 148, 213, 61, 63], rfl⟩

/-- The digest of the message under the signing key. -/
def messageDigest : Digest256 :=
  ⟨#[223, 21, 146, 251, 8, 147, 79, 185, 35, 125, 14, 140, 48, 137, 232, 105,
    66, 186, 34, 232, 26, 173, 185, 30, 160, 77, 110, 131, 228, 54, 189, 101], rfl⟩

/-- The digests and the JSON text of the sample; other inputs get nothing. -/
def samplePrims : Primitives where
  hmacSha256 := fun _ data =>
    if data = kKeyDomain then domainDigest
    else if data = sampleMessage then messageDigest
    else Vector.replicate 32 0
  json :=
    { dump := fun _ => sampleText
      parseObject := fun text =>
        if text = sampleText then .ok (sampleCodec.payload sampleToken sampleNonce).nullified
        else .error (err .invalidArgument "") }

def sampleIssue : Issue samplePrims where
  codec := sampleCodec
  token := sampleToken
  nonce := sampleNonce
  baseUrl := []
  url := HmacTransferTokenCodec.urlOf [] (sampleCodec.triple samplePrims sampleToken sampleNonce)
  fits := by decide
  produced := by decide +kernel

theorem sampleIssue_written : sampleIssue.Written where
  reads := by
    change (if sampleText = sampleText then
      (.ok (sampleCodec.payload sampleToken sampleNonce).nullified : Result Json.Value)
      else .error (err .invalidArgument "")) = _
    exact if_pos rfl
  nonempty := by decide +kernel

/-- Only the message of the issue has its digest. -/
theorem sampleIssue_unforged :
    Unforged [sampleIssue] sampleCodec sampleIssue.triple.signature := by
  intro message hsignature
  have hissued : sampleIssue.triple.signature = base64UrlEncode messageDigest.toList := by
    decide +kernel
  have hdomain : messageDigest.toList ≠ domainDigest.toList := by decide +kernel
  have hnone : messageDigest.toList ≠ (Vector.replicate 32 (0 : UInt8)).toList := by decide +kernel
  have hmessage : HmacTransferTokenCodec.signedMessage sampleIssue.triple.token
      sampleIssue.triple.expires = sampleMessage := rfl
  refine ⟨sampleIssue, List.mem_singleton.mpr rfl, rfl, hmessage.trans ?_⟩
  have hdigest := base64UrlEncode_injective (hissued.symm.trans hsignature)
  simp only [samplePrims] at hdigest
  split at hdigest
  · exact absurd hdigest hdomain
  · split at hdigest
    · rename_i hsame
      exact hsame.symm
    · exact absurd hdigest hnone

theorem sampleIssue_keysApart : KeysApart [sampleIssue] sampleCodec := by
  intro i hi _
  rw [List.mem_singleton.mp hi]
  rfl

def sampleEndpoint : TransferEndpoint := ⟨samplePrims, sampleCodec⟩

/-- The request of a client that names the partition or none. -/
def sampleRequest (partition : String) : TransferRequest := ⟨sampleIssue.triple, partition⟩

theorem sampleIssue_decoded :
    sampleEndpoint.codec.decode sampleEndpoint.prims 50 (sampleRequest "p").triple =
      .ok sampleIssue.decoded := by
  apply ((@transfers_are_issued sampleEndpoint [sampleIssue] (sampleRequest "p")
    (List.forall_mem_singleton.mpr sampleIssue_written) sampleIssue_unforged sampleIssue_keysApart
    50).1 _).mpr
  exact ⟨sampleIssue, List.mem_singleton.mpr rfl, rfl, rfl, .inl rfl, by decide, rfl⟩

/-- A request that names no partition gets the object of any. -/
theorem unbound_request_served :
    ∃ reply t token, sampleEndpoint.Makes 50 (sampleRequest "") t .stat ∧
      (⟨.blobs "s" (.stat ⟨"c", "k", none⟩), reply⟩ : Occurrence ports) ∈ t ∧
      sampleEndpoint.resolve 50 (sampleRequest "") "get" = .ok token ∧
      token.partition ≠ (sampleRequest "").partition := by
  have hresolve : sampleEndpoint.resolve 50 (sampleRequest "") "get" = .ok sampleToken := by
    decide +kernel
  refine ⟨.ok { «exists» := true },
    [⟨.forPartition "p" .staging, .ok "s"⟩, ⟨.blobs "s" (.stat ⟨"c", "k", none⟩), _⟩], sampleToken,
    ⟨.ok { «exists» := true }, ?_⟩, List.mem_cons_of_mem _ List.mem_cons_self, hresolve, by decide⟩
  unfold TransferEndpoint.stat
  rw [hresolve]
  exact ⟨.ok "s", _, rfl, _, _, rfl, rfl, rfl⟩

end Sample

end FileService.Transfer
