import FileService.Configuration.LongInt
import FileService.Domain.World
import FileService.Interaction.Execution
import FileService.S3.Exchange

/-!
# The metadata repository of a storage service

The methods of `RemoteMetadataRepository`. Each of them makes one request at
most, and whatever is not an answer it can read becomes an error.
-/
namespace FileService.Remote
open FileService.Common FileService.Domain FileService.Interaction
open FileService.Common.Json (Value)
open FileService.Common.Json.Value (TextCodec)
open FileService.Configuration (cString signed signedValue FitsLong)
open FileService.Domain.World (deriveRemoteRecordId)

/-! ## Requests -/

inductive Verb where
  | get
  | put
  | post
deriving DecidableEq, Repr

structure Request where
  verb : Verb
  url : String
  headers : List String
  body : Option String

structure HttpReply where
  transportOk : Bool := false
  status : Int := 0
  body : String := ""
  transportError : String := ""

structure Options where
  baseUrl : String
  staticToken : String := ""
  timeoutMs : Int := 5000

/-- The values of the label `op`. -/
inductive Operation where
  | put
  | get
  | delete
  | probe
deriving DecidableEq, Repr

def Operation.name : Operation → String
  | .put => "put"
  | .get => "get"
  | .delete => "delete"
  | .probe => "probe"

/-- A request, a count of `fss_metadata_remote_requests_total`, or a warning. -/
inductive Call where
  | send (request : Request)
  | record (op : Operation) (ok : Bool)
  | warn (message : String) (fields : List (String × String))

abbrev Call.Reply : Call → Type
  | .send _ => HttpReply
  | .record .. => Unit
  | .warn .. => Unit

abbrev http : Interface where
  Op := Call
  Reply := Call.Reply

abbrev record (op : Operation) (ok : Bool) : Program http Unit :=
  Program.perform (I := http) (.record op ok)

abbrev warn (message : String) (fields : List (String × String)) : Program http Unit :=
  Program.perform (I := http) (.warn message fields)

def is2xx (status : Int) : Bool := decide (200 ≤ status) && decide (status < 300)

/-! ## Replies -/

/-- `std::stoll`; the text may go on after the digits. -/
def stoll (text : String) : Option Int :=
  let (negative, rest) := signed ((cString text).dropWhile Http.isSpace)
  let digits := rest.takeWhile Http.isDigit
  if digits = [] then none
  else if FitsLong (signedValue negative digits) then some (signedValue negative digits)
  else none

def readVersion : Value → Option Int
  | .integer n => some (toInt64 n)
  | .string text => stoll text
  | _ => none

section Replies
variable (o : Options) (codec : TextCodec) (op : Operation)

def unreadable (what : String) : Error := err .unavailable ("远端 Storage Service " ++ what)

/-- What the envelope of an upsert says of the record that was sent. -/
def enveloped (root : Value) (record : FileMetadataRecord) (version : Int) : FileMetadataRecord :=
  match root.find? "recordIds" with
  | some (.array (.string id :: _)) => { record with id, version }
  | _ => { record with version }

def parseRecord (reply : HttpReply) (fallback : Option FileMetadataRecord) :
    Result FileMetadataRecord :=
  match codec.parseObject reply.body with
  | .error _ =>
    .error (unreadable ("的响应不是合法 JSON 对象（op=" ++ op.name ++ "；fail-closed → 503）"))
  | .ok root =>
    if root.contains "kind" && root.contains "data" then
      match parseFileMetadataRecord root with
      | .ok record => .ok record
      | .error e =>
        .error (unreadable ("返回的记录 JSON 缺必需字段或结构非法（op=" ++ op.name ++ "）：" ++
          e.message ++ "（fail-closed → 503）"))
    else
      match fallback, root.find? "versions" with
      | some record, some (.array (version :: _)) =>
        match readVersion version with
        | some version => .ok (enveloped root record version)
        | none =>
          .error (unreadable ("的信封里 versions[0] 不是整数/数字串（op=" ++ op.name ++
            "；fail-closed → 503）"))
      | _, _ =>
        .error (unreadable ("的响应既不是记录 JSON 也不是 upsert 信封（缺 kind/data 与 versions，op=" ++
          op.name ++ "；fail-closed → 503）"))

def failKind (reply : HttpReply) : ErrorKind :=
  if !reply.transportOk then .unavailable
  else if reply.status = 401 then .unauthenticated
  else if reply.status = 403 then .permissionDenied
  else if reply.status = 404 then .notFound
  else .unavailable

def failMessage (reply : HttpReply) (what : String) : String :=
  if !reply.transportOk then
    "远端 Storage Service 不可达或超时（" ++ what ++ "，op=" ++ op.name ++ "，timeout=" ++
      toString o.timeoutMs ++ "ms）：" ++ reply.transportError
  else if reply.status = 401 then
    "远端 Storage Service 拒绝认证（HTTP 401，op=" ++ op.name ++
      "，fail-closed → 401）：请检查 metadata.remote.static_token（当前" ++
      (if o.staticToken = "" then "为空" else "已配置") ++
      "）与 token_provider=static；本适配器只支持静态 Bearer token（见运维文档 §1.2.7）。"
  else if reply.status = 403 then
    "远端 Storage Service 拒绝授权（HTTP 403，op=" ++ op.name ++ "）：该 token 没有 Storage 记录写入权限。"
  else if reply.status = 404 then
    "远端 Storage Service 找不到目标记录（HTTP 404，op=" ++ op.name ++ "，" ++ what ++ "）。"
  else
    "远端 Storage Service 返回非成功状态（HTTP " ++ toString reply.status ++ "，op=" ++ op.name ++ "，" ++
      what ++ "；fail-closed → 503，绝不把依赖故障当成成功）。"

def fail (reply : HttpReply) (what : String) : Program http Error := do
  warn ("远端元数据仓储请求失败：" ++ failMessage o op reply what)
    [("component", "metadata_remote"), ("op", op.name),
      ("status", if reply.transportOk then toString reply.status else "n/a"),
      ("error_kind", S3.errorKindName (failKind reply))]
  return err (failKind reply) (failMessage o op reply what)

def failed {α : Type} (reply : HttpReply) (what : String) : Program http (Result α) := do
  record op false
  return .error (← fail o op reply what)

end Replies

section Repository
variable (o : Options) (codec : TextCodec) (sha256Hex : Bytes → String)

/-! ## Methods -/

def headers : List String :=
  ["Content-Type: application/json", "Accept: application/json"] ++
    if o.staticToken = "" then [] else ["Authorization: Bearer " ++ o.staticToken]

/-- The path comes after the base address. -/
def call (verb : Verb) (path : String) (body : Option String) : Program http HttpReply :=
  if o.baseUrl = "" then
    return { transportError := "未配置 metadata.remote.base_url（fail-closed）" }
  else
    Program.perform (I := http) (.send { verb, url := o.baseUrl ++ path, headers := headers o, body })

section Exchange
variable {α : Type} (op : Operation) (accepts : HttpReply → Bool) (what : String)
variable (read : HttpReply → Result α) (warns : Bool)

/-- What all methods make of the reply: only a status that the method accepts can be an answer. -/
def conclude (reply : HttpReply) : Program http (Result α) :=
  if accepts reply then
    match read reply with
    | .ok answer => do
      record op true
      return .ok answer
    | .error e => do
      record op false
      if warns then
        warn ("远端元数据仓储响应无法解析：" ++ e.message)
          [("component", "metadata_remote"), ("op", op.name)]
      return .error e
  else failed o op reply what

def exchange (verb : Verb) (path : String) (body : Option String) : Program http (Result α) := do
  conclude o op accepts what read warns (← call o verb path body)

end Exchange

def succeeded (reply : HttpReply) : Bool := reply.transportOk && is2xx reply.status

/-- `PUT {base}/records` -/
def putRecord (what : String) (toPut : FileMetadataRecord) :
    Program http (Result FileMetadataRecord) :=
  exchange o .put succeeded what (fun reply => parseRecord codec .put reply (some toPut)) true
    .put "/records" (some (codec.dump (toJson toPut)))

/-- `GET {base}/records/{id}`; an unreadable record is not reported with a warning. -/
def getRecord (what id : String) : Program http (Result FileMetadataRecord) :=
  exchange o .get succeeded what (fun reply => parseRecord codec .get reply none) false
    .get ("/records/" ++ id) none

def create (partition : String) (toCreate : FileMetadataRecord) :
    Program http (Result FileMetadataRecord) :=
  if toCreate.fileSource = "" then
    return .error (err .invalidArgument
      "远端元数据仓储 Create 需要非空 FileSource（幂等键）：无法派生记录 id")
  else
    -- the id of the caller is not used
    putRecord o codec "PUT /records"
      { toCreate with id := deriveRemoteRecordId sha256Hex partition toCreate.fileSource }

def update (toUpdate : FileMetadataRecord) : Program http (Result FileMetadataRecord) :=
  if toUpdate.id = "" then
    return .error (err .invalidArgument "远端元数据仓储 Update 需要非空记录 id")
  else putRecord o codec "PUT /records（更新）" toUpdate

def getById (recordId : String) : Program http (Result FileMetadataRecord) :=
  getRecord o codec "GET /records/{id}" recordId

def getLatestByFileSource (partition fileSource : String) :
    Program http (Result FileMetadataRecord) :=
  getRecord o codec "GET /records/{derived_id}（按 FileSource 取）"
    (deriveRemoteRecordId sha256Hex partition fileSource)

/-- Only the status 204 means that the record is gone. -/
def delete (recordId : String) : Program http (Result Unit) :=
  exchange o .delete (fun reply => reply.transportOk && decide (reply.status = 204))
    "POST /records/{id}:delete（要求 204）" (fun _ => .ok ()) false
    .post ("/records/" ++ (recordId ++ ":delete")) none

/-- The record that is asked for is not there: the status 404 shows that the service answers. -/
def probe : Program http (Result Unit) :=
  exchange o .probe
    (fun reply => reply.transportOk && (decide (reply.status = 404) || is2xx reply.status))
    "GET /records/{probe_id}（就绪探针；404 = 服务活着）" (fun _ => .ok ()) false
    .get ("/records/" ++ deriveRemoteRecordId sha256Hex "__probe__" "fss-readiness-probe:liveness") none

def noAtomicClaim (method : String) : Error :=
  err .unimplemented
    ("远端 Storage Service 元数据仓储不支持原子领取（capabilities().atomic_claim=false）：" ++ method ++
      " 需要 ADR-009 §4.2 的\"条件插入\"数据库原语与一个**不属于 OSDU 记录**的 " ++
      "state 列，远端两者都没有。用例必须按 capabilities() 走无领取路径" ++
      "（本形态下该方法永不被调用）。")

def noList : Error :=
  err .unimplemented
    ("远端 Storage Service 元数据仓储不实现 List：ADR-004 的三方法草图与 " ++
      "docs/01-osdu-research.md 都没有\"按条件列举记录\"的端点依据，本适配器不发明" ++
      "一个未文档化的 query 端点。读路径用 GetById / GetLatestByFileSource。")

def body : (call : MetadataCall) → Program http (Result call.Value)
  | .create partition record => create o codec sha256Hex partition record
  | .update _ record => update o codec record
  | .getById _ recordId => getById o codec recordId
  | .getLatestByFileSource partition fileSource =>
    getLatestByFileSource o codec sha256Hex partition fileSource
  | .delete _ recordId => delete o recordId
  | .claimForWrite .. => return .error (noAtomicClaim "ClaimForWrite")
  | .markReady .. => return .error (noAtomicClaim "MarkReady")
  | .releaseClaim .. => return .error (noAtomicClaim "ReleaseClaim")
  | .reclaimStaleClaiming .. => return .error (noAtomicClaim "ReclaimStaleClaiming")
  | .list .. => return .error noList

end Repository

/-! ## One request, one count -/

section Calls
variable {S : Type} {exec : Effects http S} {s s' : S} {t t' : List (Performed http S)}

/-- A request with its reply. -/
def exchanged (x : Performed http S) : Option (Request × HttpReply) :=
  match x with
  | ⟨_, .send request, reply, _⟩ => some (request, reply)
  | _ => none

def count (x : Performed http S) : Option (Operation × Bool) :=
  match x.op with
  | .record op ok => some (op, ok)
  | _ => none

/-- The requests of an execution, and what it has counted. -/
def Makes (t : List (Performed http S)) (exchanges : List (Request × HttpReply))
    (counts : List (Operation × Bool)) : Prop :=
  t.filterMap exchanged = exchanges ∧ t.filterMap count = counts

def isNote : Call → Bool
  | .send _ => false
  | _ => true

variable {α : Type} {o : Options} {op : Operation} {accepts : HttpReply → Bool} {what : String}
variable {read : HttpReply → Result α} {warns : Bool} {reply : HttpReply} {r : Result α}

/-- What a method returns for a reply. -/
def outcome (o : Options) (op : Operation) (accepts : HttpReply → Bool) (what : String)
    (read : HttpReply → Result α) (reply : HttpReply) : Result α :=
  if accepts reply then read reply else .error (err (failKind reply) (failMessage o op reply what))

theorem performs_conclude (h : (conclude o op accepts what read warns reply).Performs exec s t r s') :
    r = outcome o op accepts what read reply ∧ Makes t [] [(op, Result.isOk r)] ∧
      ∀ x ∈ t, isNote x.op = true := by
  unfold conclude at h
  unfold outcome
  by_cases haccepts : accepts reply = true
  · rw [if_pos haccepts] at h ⊢
    cases hread : read reply with
    | ok answer =>
      rw [hread] at h
      obtain ⟨u, s₁, rest, -, rfl, rfl, rfl, rfl⟩ := h
      exact ⟨rfl, ⟨rfl, rfl⟩, by simp [isNote]⟩
    | error e =>
      rw [hread] at h
      obtain ⟨u, s₁, rest, -, rfl, h⟩ := h
      cases warns with
      | false =>
        obtain ⟨rfl, rfl, rfl⟩ := h
        exact ⟨rfl, ⟨rfl, rfl⟩, by simp [isNote]⟩
      | true =>
        obtain ⟨u', s₂, rest, -, rfl, rfl, rfl, rfl⟩ := h
        exact ⟨rfl, ⟨rfl, rfl⟩, by simp [isNote]⟩
  · rw [if_neg haccepts] at h ⊢
    obtain ⟨u, s₁, rest, -, rfl, u', s₂, rest', -, rfl, rfl, rfl, rfl⟩ := h
    exact ⟨rfl, ⟨rfl, rfl⟩, by simp [isNote]⟩

/-- Without a base address nothing is sent; otherwise there is one request. -/
theorem performs_exchange {verb : Verb} {path : String} {body : Option String}
    (h : (exchange o op accepts what read warns verb path body).Performs exec s t r s') :
    ∃ reply exchanges, r = outcome o op accepts what read reply ∧
      Makes t exchanges [(op, Result.isOk r)] ∧
      (exchanges = [(⟨verb, o.baseUrl ++ path, headers o, body⟩, reply)] ∨
        exchanges = [] ∧ reply.transportOk = false) := by
  unfold exchange call at h
  by_cases hbase : o.baseUrl = ""
  · rw [if_pos hbase] at h
    obtain ⟨hr, hmakes, -⟩ := performs_conclude h
    exact ⟨_, [], hr, hmakes, .inr ⟨rfl, rfl⟩⟩
  · rw [if_neg hbase] at h
    obtain ⟨reply, s₁, rest, -, rfl, h⟩ := h
    obtain ⟨hr, hmakes, -⟩ := performs_conclude h
    exact ⟨reply, _, hr, ⟨congrArg (List.cons _) hmakes.1, hmakes.2⟩, .inl rfl⟩

/-- The kind of the count of a call, if it makes a request. -/
def operation : MetadataCall → Option Operation
  | .create _ record => if record.fileSource = "" then none else some .put
  | .update _ record => if record.id = "" then none else some .put
  | .getById .. => some .get
  | .getLatestByFileSource .. => some .get
  | .delete .. => some .delete
  | _ => none

/-- What the body says is the record: the record itself, or an envelope with its version. -/
def Tells (codec : TextCodec) (body : String) (fallback : Option FileMetadataRecord)
    (record : FileMetadataRecord) : Prop :=
  ∃ root, codec.parseObject body = .ok root ∧ (parseFileMetadataRecord root = .ok record ∨
    ∃ given v versions n, fallback = some given ∧ root.find? "versions" = some (.array (v :: versions)) ∧
      readVersion v = some n ∧ record = enveloped root given n)

/-- The reply says of the call that it was done, and with which result. -/
def Confirms (codec : TextCodec) (sha256Hex : Bytes → String) (reply : HttpReply) :
    (call : MetadataCall) → call.Value → Prop
  | .create partition given, record =>
    succeeded reply = true ∧ Tells codec reply.body
      (some { given with id := deriveRemoteRecordId sha256Hex partition given.fileSource }) record
  | .update _ given, record => succeeded reply = true ∧ Tells codec reply.body (some given) record
  | .getById .., record => succeeded reply = true ∧ Tells codec reply.body none record
  | .getLatestByFileSource .., record =>
    succeeded reply = true ∧ Tells codec reply.body none record
  | .delete .., () => reply.transportOk = true ∧ reply.status = 204
  | _, _ => False

/-- The kinds of a failing dependency. -/
def IsFault (e : Error) : Prop :=
  e.kind = .unavailable ∨ e.kind = .unauthenticated ∨ e.kind = .permissionDenied

variable {codec : TextCodec} {sha256Hex : Bytes → String} {e : Error}
variable {fallback : Option FileMetadataRecord} {stored : FileMetadataRecord}

theorem tells_of_parseRecord (h : parseRecord codec op reply fallback = .ok stored) :
    Tells codec reply.body fallback stored := by
  unfold parseRecord at h
  cases hbody : codec.parseObject reply.body with
  | error e =>
    rw [hbody] at h
    cases h
  | ok root =>
    refine ⟨root, hbody, ?_⟩
    rw [hbody] at h
    dsimp only at h
    by_cases hrecord : (root.contains "kind" && root.contains "data") = true
    · rw [if_pos hrecord] at h
      cases hparse : parseFileMetadataRecord root with
      | error e =>
        rw [hparse] at h
        cases h
      | ok record =>
        rw [hparse] at h
        exact .inl h
    · rw [if_neg hrecord] at h
      split at h
      · rename_i given v versions hversions
        cases hread : readVersion v with
        | none =>
          rw [hread] at h
          cases h
        | some n =>
          rw [hread] at h
          exact .inr ⟨given, v, versions, n, rfl, hversions, hread, (Except.ok.inj h).symm⟩
      · cases h

theorem unavailable_of_parseRecord (h : parseRecord codec op reply fallback = .error e) :
    e.kind = .unavailable := by
  unfold parseRecord unreadable at h
  repeat' split at h
  all_goals cases h <;> rfl

theorem fault_of_outcome (h : outcome o op accepts what read reply = .error e)
    (hread : ∀ e, read reply = .error e → IsFault e) :
    IsFault e ∨ e.kind = .notFound ∧ reply.status = 404 := by
  unfold outcome at h
  split_ifs at h
  · exact .inl (hread e h)
  · obtain rfl := Except.error.inj h
    unfold IsFault err failKind
    split_ifs <;> simp_all

theorem ok_of_outcome {a : α} (h : outcome o op accepts what read reply = .ok a) :
    accepts reply = true ∧ read reply = .ok a := by
  unfold outcome at h
  split_ifs at h with haccepts
  exact ⟨haccepts, h⟩

/-- One count, at most one request, and a result that the reply accounts for. -/
structure Attempt (t : List (Performed http S)) (op : Operation) (reply : HttpReply) (r : Result α)
    (confirmed : α → Prop) : Prop where
  made : ∃ exchanges, Makes t exchanges [(op, Result.isOk r)] ∧
    ((∃ request, exchanges = [(request, reply)]) ∨ exchanges = [] ∧ reply.transportOk = false)
  ok : ∀ a, r = .ok a → confirmed a
  error : ∀ e, r = .error e → IsFault e ∨ e.kind = .notFound ∧ reply.status = 404

theorem attempt_exchange {verb : Verb} {path : String} {body : Option String}
    {confirmed : HttpReply → α → Prop}
    (h : (exchange o op accepts what read warns verb path body).Performs exec s t r s')
    (hread : ∀ reply e, read reply = .error e → IsFault e)
    (hok : ∀ reply a, accepts reply = true → read reply = .ok a → confirmed reply a) :
    ∃ reply, Attempt t op reply r (confirmed reply) := by
  obtain ⟨reply, exchanges, rfl, hmakes, hexchanges⟩ := performs_exchange h
  refine ⟨reply, ⟨exchanges, hmakes, ?_⟩, fun a ha => ?_, fun e he => fault_of_outcome he (hread reply)⟩
  · exact hexchanges.imp_left fun hone => ⟨_, hone⟩
  · obtain ⟨haccepts, hanswer⟩ := ok_of_outcome ha
    exact hok reply a haccepts hanswer

theorem attempt_putRecord {given : FileMetadataRecord} {r : Result FileMetadataRecord}
    (h : (putRecord o codec what given).Performs exec s t r s') :
    ∃ reply, Attempt t .put reply r fun record =>
      succeeded reply = true ∧ Tells codec reply.body (some given) record :=
  attempt_exchange h (fun _ _ he => .inl (unavailable_of_parseRecord he))
    fun _ _ hok hrecord => ⟨hok, tells_of_parseRecord hrecord⟩

theorem attempt_getRecord {id : String} {r : Result FileMetadataRecord}
    (h : (getRecord o codec what id).Performs exec s t r s') :
    ∃ reply, Attempt t .get reply r fun record =>
      succeeded reply = true ∧ Tells codec reply.body none record :=
  attempt_exchange h (fun _ _ he => .inl (unavailable_of_parseRecord he))
    fun _ _ hok hrecord => ⟨hok, tells_of_parseRecord hrecord⟩

/-- Without a request nothing is counted, and the call is refused. -/
def Refused (t : List (Performed http S)) (r : Result α) : Prop :=
  Makes t [] [] ∧ ∃ e, r = .error e ∧ (e.kind = .invalidArgument ∨ e.kind = .unimplemented)

theorem refused_pure {e : Error} (he : e.kind = .invalidArgument ∨ e.kind = .unimplemented)
    (h : (pure (.error e) : Program http (Result α)).Performs exec s t r s') : Refused t r := by
  obtain ⟨rfl, rfl, rfl⟩ := h
  exact ⟨⟨rfl, rfl⟩, e, rfl, he⟩

end Calls

/-- A service that answers every request with the status 500. -/
def failingService : Effects http Unit := fun _ call reply _ =>
  match call, reply with
  | .send _, reply => reply = { transportOk := true, status := 500 }
  | .record .., () => True
  | .warn .., () => True

def noCodec : TextCodec where
  dump _ := ""
  parseObject _ := .error (err .invalidArgument "JSON 解析失败")

def sampleOptions : Options where
  baseUrl := "http://host/api/storage/v2"

end FileService.Remote
