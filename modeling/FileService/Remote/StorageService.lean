import FileService.Domain.RecordRoundTrip
import FileService.Interaction.Execution
import FileService.Remote.MetadataRepository

/-!
# The service behind the repository

A storage service keeps one JSON document for each record and counts its
versions. Requests and replies may get lost, and the service may refuse to
answer. Nothing is known of what happens at other addresses than those of plain
record ids. Each method of the repository then does what the remote backend of
the world does, or it fails as a dependency fails.
-/
namespace FileService.Remote
open FileService.Common FileService.Domain FileService.Interaction
open FileService.Common.Json (Value)
open FileService.Common.Json.Value (TextCodec)
open FileService.Configuration (FitsLong cString signed signedValue)
open FileService.Domain.World (deriveRemoteRecordId remoteCall)

/-! ## What the service does -/

/-- The characters of a record id, none of which is encoded in a path. -/
def isPlainChar (c : Char) : Bool := c.isAlphanum || c == ':' || c == '.' || c == '_' || c == '-'

def IsPlain (id : String) : Prop := id ≠ "" ∧ ∀ c ∈ id.toList, isPlainChar c = true

instance (id : String) : Decidable (IsPlain id) :=
  decidable_of_iff (id ≠ "" ∧ id.toList.all isPlainChar = true) (by simp [IsPlain])

abbrev Documents := String → Option Value

def nextVersion (docs : Documents) (id : String) : Int :=
  match docs id with
  | some old => versionFrom old + 1
  | none => 1

/-- The document that an upsert stores. -/
def upserted (docs : Documents) (id : String) (sent : Value) : Value :=
  sent.set "version" (.integer (nextVersion docs id))

section Service
variable (codec : TextCodec)

/-- A body that tells which version of the record was stored: the record, or an envelope. -/
inductive Reports (id : String) (doc : Value) (version : Int) (body : String) : Prop
  | record : codec.parseObject body = .ok doc → Reports id doc version body
  | envelope {root v : Value} {ids versions : List Value} : codec.parseObject body = .ok root →
      (root.contains "kind" && root.contains "data") = false →
      root.find? "recordIds" = some (.array (.string id :: ids)) →
      root.find? "versions" = some (.array (v :: versions)) →
      v = .integer version ∨ v = .string (toString version) → Reports id doc version body

variable (baseUrl : String) (docs : Documents)

def recordUrl (id : String) : String := baseUrl ++ ("/records/" ++ id)

/-- A request that is carried out. -/
inductive Serves : Request → HttpReply → Documents → Prop
  | upserted {request : Request} {reply : HttpReply} {body id : String} {sent : Value} :
      request.verb = .put → request.url = baseUrl ++ "/records" → request.body = some body →
      codec.parseObject body = .ok sent → sent.find? "id" = some (.string id) →
      nextVersion docs id < 2 ^ 63 → succeeded reply = true →
      Reports codec id (upserted docs id sent) (nextVersion docs id) reply.body →
      Serves request reply (Function.update docs id (some (upserted docs id sent)))
  | found {request : Request} {reply : HttpReply} {id : String} {doc : Value} :
      request.verb = .get → request.url = recordUrl baseUrl id → docs id = some doc →
      succeeded reply = true → codec.parseObject reply.body = .ok doc → Serves request reply docs
  | absent {request : Request} {reply : HttpReply} {id : String} :
      request.verb = .get → request.url = recordUrl baseUrl id → docs id = none →
      reply.transportOk = true → reply.status = 404 → Serves request reply docs
  | deleted {request : Request} {reply : HttpReply} {id : String} {doc : Value} :
      request.verb = .post → request.url = recordUrl baseUrl (id ++ ":delete") →
      docs id = some doc → reply.transportOk = true → reply.status = 204 →
      Serves request reply (Function.update docs id none)
  | nothingDeleted {request : Request} {reply : HttpReply} {id : String} :
      request.verb = .post → request.url = recordUrl baseUrl (id ++ ":delete") → docs id = none →
      reply.transportOk = true → reply.status = 404 → Serves request reply docs

/-- The addresses at which the service is known to do something. -/
inductive Known : Request → Prop
  | put {request : Request} {body id : String} {sent : Value} : request.verb = .put →
      request.url = baseUrl ++ "/records" → request.body = some body →
      codec.parseObject body = .ok sent → sent.find? "id" = some (.string id) → Known request
  | get {request : Request} {id : String} : IsPlain id → request.verb = .get →
      request.url = recordUrl baseUrl id → Known request
  | post {request : Request} {id : String} : IsPlain id → request.verb = .post →
      request.url = recordUrl baseUrl (id ++ ":delete") → Known request

/-- No answer: there was none, its status is another one, or its body cannot be read. -/
inductive Unanswered (verb : Verb) (reply : HttpReply) : Prop
  | unreachable : reply.transportOk = false → Unanswered verb reply
  | refused : is2xx reply.status = false → reply.status ≠ 404 → Unanswered verb reply
  | garbled {e : Error} : verb ≠ .post → codec.parseObject reply.body = .error e →
      reply.status ≠ 404 → Unanswered verb reply
  | unconfirmed : verb = .post → reply.status ≠ 204 → reply.status ≠ 404 → Unanswered verb reply

/-- What a request may come to. -/
inductive Sends (request : Request) : HttpReply → Documents → Prop
  | served {reply : HttpReply} {docs' : Documents} :
      Serves codec baseUrl docs request reply docs' → Sends request reply docs'
  | lost {reply : HttpReply} : Unanswered codec request.verb reply → Sends request reply docs
  | unheard {reply reply' : HttpReply} {docs' : Documents} :
      Serves codec baseUrl docs request reply docs' → Unanswered codec request.verb reply' →
      Sends request reply' docs'
  | elsewhere {reply : HttpReply} {docs' : Documents} :
      ¬Known codec baseUrl request → Sends request reply docs'

/-- The effects of what the repository asks for; the counters and the log are not its own. -/
def storage : Effects http Documents := fun docs call reply docs' =>
  match call, reply with
  | .send request, reply => Sends codec baseUrl docs request reply docs'
  | .record .., () => docs' = docs
  | .warn .., () => docs' = docs

end Service

/-! ## What the remote backend does -/

/-- The same value, or errors of one kind. -/
def Agrees {α : Type} : Result α → Result α → Prop
  | .ok a, .ok b => a = b
  | .error e, .error e' => e.kind = e'.kind
  | _, _ => False

/-- The answer and the effect of the remote backend, or a fault without or with the effect. -/
inductive Outcome (sha256Hex : Bytes → String) (remote : RemoteStorageService)
    (call : MetadataCall) (r : Result call.Value) : RemoteStorageService → Prop
  | answered : Agrees r (remoteCall sha256Hex remote call).1 →
      Outcome sha256Hex remote call r (remoteCall sha256Hex remote call).2
  | lost {e : Error} : r = .error e → IsFault e → Outcome sha256Hex remote call r remote
  | unacknowledged {e : Error} : r = .error e → IsFault e →
      Outcome sha256Hex remote call r (remoteCall sha256Hex remote call).2

/-- The documents are those of the records. -/
def Holds (docs : Documents) (remote : RemoteStorageService) : Prop :=
  ∀ id, (docs id).map parseFileMetadataRecord = remote.records[id]?.map Except.ok

/-- The id of the record that a call asks for. -/
def addressed (sha256Hex : Bytes → String) : MetadataCall → Option String
  | .getById _ recordId => some recordId
  | .getLatestByFileSource partition fileSource =>
    some (deriveRemoteRecordId sha256Hex partition fileSource)
  | .delete _ recordId => some recordId
  | _ => none

/-- The record that a call sends. -/
def written (sha256Hex : Bytes → String) : MetadataCall → Option FileMetadataRecord
  | .create partition record =>
    some { record with id := deriveRemoteRecordId sha256Hex partition record.fileSource }
  | .update _ record => some record
  | _ => none

/-- The ids are plain, and records survive their JSON form and its text. -/
structure Fit (codec : TextCodec) (sha256Hex : Bytes → String) (call : MetadataCall) : Prop where
  plain : ∀ id, addressed sha256Hex call = some id → IsPlain id
  storable : ∀ record, written sha256Hex call = some record → record.Storable
  carried : ∀ record, written sha256Hex call = some record →
    codec.parseObject (codec.dump (toJson record)) = .ok (toJson record)

/-! ## Replies and versions -/

section Versions
variable {v : Value} {r : FileMetadataRecord} {n : Int}

/-- A numeral is read as its number. -/
theorem stoll_of_digits {text : String} (negative : Bool) (k : Nat)
    (hnul : '\x00' ∉ text.toList)
    (hsigned : signed (text.toList.dropWhile Http.isSpace) = (negative, Nat.toDigits 10 k))
    (hn : n = if negative then -(k : Int) else k) (hfits : FitsLong n) : stoll text = some n := by
  have hdigits : (Nat.toDigits 10 k).takeWhile Http.isDigit = Nat.toDigits 10 k :=
    List.takeWhile_eq_self_iff.mpr (List.all_eq_true.mp Configuration.all_isDigit_toDigits)
  have hvalue : signedValue negative (Nat.toDigits 10 k) = n := by
    rw [hn, signedValue, Configuration.digitsValue_eq, Decimal.value, Nat.ofDigitChars_ten_toDigits]
  unfold stoll
  rw [Configuration.cString_eq hnul, hsigned]
  dsimp only
  rw [hdigits, if_neg Nat.toDigits_ne_nil, hvalue, if_pos hfits]

theorem stoll_toString (hfits : FitsLong n) : stoll (toString n) = some n := by
  cases n with
  | ofNat k =>
    have htext : (toString (Int.ofNat k)).toList = Nat.toDigits 10 k := by
      change (Nat.repr k).toList = _
      rw [Nat.toList_repr]
    refine stoll_of_digits false k ?_ ?_ rfl hfits
    · rw [htext]
      exact Decimal.notMem_toDigits (by decide)
    · rw [htext, Configuration.dropWhile_toDigits, Configuration.signed_toDigits]
  | negSucc k =>
    have htext : (toString (Int.negSucc k)).toList = '-' :: Nat.toDigits 10 (k + 1) := by
      change ("-" ++ Nat.repr (k + 1)).toList = _
      rw [String.toList_append, Nat.toList_repr]
      rfl
    refine stoll_of_digits true (k + 1) ?_ ?_ rfl hfits
    · rw [htext, List.mem_cons, not_or]
      exact ⟨by decide, Decimal.notMem_toDigits (by decide)⟩
    · rw [htext]
      rfl

theorem readVersion_of_reported (hfits : FitsLong n)
    (h : v = .integer n ∨ v = .string (toString n)) : readVersion v = some n := by
  rcases h with rfl | rfl
  · have hbounds : -2 ^ 63 ≤ n ∧ n < 2 ^ 63 := by
      unfold FitsLong Http.int64Min Http.int64Max at hfits
      omega
    rw [readVersion, toInt64_eq_self hbounds]
  · rw [readVersion, stoll_toString hfits]

theorem versionFrom_of_parse (h : parseFileMetadataRecord v = .ok r) : versionFrom v = r.version := by
  obtain ⟨-, acl, legal, data, -, -, -, -, -, rfl⟩ := parse_ok_iff.mp h
  rfl

theorem contains_of_parse (h : parseFileMetadataRecord v = .ok r) :
    (v.contains "kind" && v.contains "data") = true := by
  obtain ⟨⟨kind, hkind⟩, acl, legal, data, -, -, hdata, -⟩ := parse_ok_iff.mp h
  simp [Value.contains, hkind, hdata]

/-- Only the version of the record is another one. -/
theorem parse_set_version (h : parseFileMetadataRecord v = .ok r) (hn : -2 ^ 63 ≤ n ∧ n < 2 ^ 63) :
    parseFileMetadataRecord (v.set "version" (.integer n)) = .ok { r with version := n } := by
  obtain ⟨⟨kind, hkind⟩, acl, legal, data, hacl, hlegal, hdata, hsome, henums, rfl⟩ :=
    parse_ok_iff.mp h
  have hversion : versionFrom (v.set "version" (.integer n)) = n := by
    simp [versionFrom, toInt64_eq_self hn]
  refine parse_ok_iff.mpr ⟨⟨kind, by simpa using hkind⟩, acl, legal, data, by simpa using hacl,
    by simpa using hlegal, by simpa using hdata, hsome, henums, ?_⟩
  have hextra : (v.set "version" (.integer n)).without recordKnown = v.without recordKnown :=
    Value.without_set (by decide)
  simp [recordOf, hversion, hextra, getOpt_eq, ancestryFrom, tagsFrom]

end Versions

/-! ## One request -/

section Requests
variable {codec : TextCodec} {o : Options} {docs docs' : Documents}
variable {t : List (Performed http Documents)}

theorem sends_of_exchange {α : Type} {op : Operation} {accepts : HttpReply → Bool} {what : String}
    {read : HttpReply → Result α} {warns : Bool} {verb : Verb} {path : String}
    {body : Option String} {r : Result α} (hbase : o.baseUrl ≠ "")
    (h : (exchange o op accepts what read warns verb path body).Performs (storage codec o.baseUrl)
      docs t r docs') :
    ∃ reply, Sends codec o.baseUrl docs ⟨verb, o.baseUrl ++ path, headers o, body⟩ reply docs' ∧
      r = outcome o op accepts what read reply := by
  unfold exchange call at h
  rw [if_neg hbase] at h
  obtain ⟨reply, docs₁, rest, hsends, -, hconclude⟩ := h
  obtain ⟨hr, -, hnotes⟩ := performs_conclude hconclude
  have hkept : ∀ x ∈ rest, storage codec o.baseUrl x.before x.op x.reply x.after →
      docs₁ = x.before → docs₁ = x.after := by
    intro x hx hexec hbefore
    have hnote := hnotes x hx
    obtain ⟨before, call, answer, after⟩ := x
    cases call with
    | send request => cases hnote
    | record op ok => exact hbefore.trans (Eq.symm hexec)
    | warn message fields => exact hbefore.trans (Eq.symm hexec)
  have hsame : docs₁ = docs' := hconclude.invariant hkept rfl
  rw [← hsame]
  exact ⟨reply, hsends, hr⟩

theorem conclude_performs {α : Type} {op : Operation} {accepts : HttpReply → Bool} {what : String}
    {read : HttpReply → Result α} {warns : Bool} {reply : HttpReply} :
    ∃ t, (conclude o op accepts what read warns reply).Performs (storage codec o.baseUrl) docs t
      (outcome o op accepts what read reply) docs := by
  unfold conclude outcome
  by_cases haccepts : accepts reply = true
  · rw [if_pos haccepts, if_pos haccepts]
    cases hread : read reply with
    | ok answer => exact ⟨_, (), docs, [], rfl, rfl, rfl, rfl, rfl⟩
    | error e =>
      cases warns with
      | false => exact ⟨_, (), docs, [], rfl, rfl, rfl, rfl, rfl⟩
      | true => exact ⟨_, (), docs, _, rfl, rfl, (), docs, [], rfl, rfl, rfl, rfl, rfl⟩
  · rw [if_neg haccepts, if_neg haccepts]
    exact ⟨_, (), docs, _, rfl, rfl, (), docs, [], rfl, rfl, rfl, rfl, rfl⟩

/-- Whatever a request may come to, the method makes of it what it returns. -/
theorem exchange_of_sends {α : Type} {op : Operation} {accepts : HttpReply → Bool} {what : String}
    {read : HttpReply → Result α} {warns : Bool} {verb : Verb} {path : String}
    {body : Option String} {reply : HttpReply} (hbase : o.baseUrl ≠ "")
    (h : Sends codec o.baseUrl docs ⟨verb, o.baseUrl ++ path, headers o, body⟩ reply docs') :
    ∃ t, (exchange o op accepts what read warns verb path body).Performs (storage codec o.baseUrl)
      docs t (outcome o op accepts what read reply) docs' := by
  unfold exchange call
  rw [if_neg hbase]
  obtain ⟨t, ht⟩ : ∃ t, (conclude o op accepts what read warns reply).Performs
      (storage codec o.baseUrl) docs' t (outcome o op accepts what read reply) docs' :=
    conclude_performs
  exact ⟨_, reply, docs', t, h, rfl, ht⟩

theorem isFault_failKind {reply : HttpReply} {message : String}
    (h : reply.transportOk = false ∨ reply.status ≠ 404) : IsFault (err (failKind reply) message) := by
  unfold IsFault err failKind
  split_ifs <;> simp_all

theorem outcome_of_unanswered {α : Type} {op : Operation} {what : String} {verb : Verb}
    {accepts : HttpReply → Bool} {read : HttpReply → Result α} {reply : HttpReply}
    (h : Unanswered codec verb reply) (haccepts : accepts reply = true → succeeded reply = true)
    (hread : ∀ e, verb ≠ .post → codec.parseObject reply.body = .error e →
      ∃ e', read reply = .error e' ∧ IsFault e')
    (hpost : verb = .post → accepts reply = true → reply.status = 204) :
    ∃ e, outcome o op accepts what read reply = .error e ∧ IsFault e := by
  unfold outcome
  by_cases hok : accepts reply = true
  · rw [if_pos hok]
    have hsucceeded := haccepts hok
    simp only [succeeded, Bool.and_eq_true] at hsucceeded
    cases h with
    | unreachable hdown => simp [hdown] at hsucceeded
    | refused hstatus => simp [hstatus] at hsucceeded
    | garbled hverb hbody => exact hread _ hverb hbody
    | unconfirmed hverb hstatus => exact absurd (hpost hverb hok) hstatus
  · rw [if_neg hok]
    refine ⟨_, rfl, isFault_failKind ?_⟩
    cases h with
    | unreachable hdown => exact .inl hdown
    | refused _ hstatus => exact .inr hstatus
    | garbled _ _ hstatus => exact .inr hstatus
    | unconfirmed _ _ hstatus => exact .inr hstatus

theorem parseRecord_of_unparsable {op : Operation} {reply : HttpReply} {e : Error}
    {fallback : Option FileMetadataRecord} (h : codec.parseObject reply.body = .error e) :
    ∃ e', parseRecord codec op reply fallback = .error e' ∧ IsFault e' := by
  unfold parseRecord
  rw [h]
  exact ⟨_, rfl, .inl rfl⟩

theorem parseRecord_of_record {op : Operation} {reply : HttpReply} {doc : Value}
    {record : FileMetadataRecord} {fallback : Option FileMetadataRecord}
    (hbody : codec.parseObject reply.body = .ok doc)
    (hparse : parseFileMetadataRecord doc = .ok record) :
    parseRecord codec op reply fallback = .ok record := by
  unfold parseRecord
  rw [hbody]
  dsimp only
  rw [if_pos (contains_of_parse hparse), hparse]

theorem parseRecord_of_reports {op : Operation} {reply : HttpReply} {doc : Value}
    {toPut : FileMetadataRecord} {n : Int} (h : Reports codec toPut.id doc n reply.body)
    (hparse : parseFileMetadataRecord doc = .ok { toPut with version := n }) (hfits : FitsLong n) :
    parseRecord codec op reply (some toPut) = .ok { toPut with version := n } := by
  cases h with
  | record hbody => exact parseRecord_of_record hbody hparse
  | envelope hbody hplain hids hversions hv =>
    unfold parseRecord
    rw [hbody]
    dsimp only
    rw [if_neg (by simp [hplain]), hversions]
    dsimp only
    rw [readVersion_of_reported hfits hv]
    unfold enveloped
    rw [hids]

end Requests

/-! ## The documents and the records -/

section Records
variable {docs : Documents} {remote : RemoteStorageService} {id : String} {doc : Value}
variable {record : FileMetadataRecord}

theorem Holds.found (h : Holds docs remote) (hdoc : docs id = some doc) :
    ∃ record, remote.records[id]? = some record ∧ parseFileMetadataRecord doc = .ok record := by
  have hid := h id
  rw [hdoc, Option.map_some] at hid
  cases hrecord : remote.records[id]? with
  | none =>
    rw [hrecord] at hid
    cases hid
  | some record =>
    rw [hrecord] at hid
    exact ⟨record, rfl, Option.some.inj hid⟩

theorem Holds.absent (h : Holds docs remote) (hdoc : docs id = none) : remote.records[id]? = none := by
  have hid := h id
  rw [hdoc, Option.map_none] at hid
  exact Option.map_eq_none_iff.mp hid.symm

theorem Holds.insert (h : Holds docs remote) (hparse : parseFileMetadataRecord doc = .ok record) :
    Holds (Function.update docs id (some doc)) { records := remote.records.insert id record } := by
  intro k
  by_cases hk : k = id
  · subst hk
    rw [Function.update_self, Std.ExtTreeMap.getElem?_insert_self, Option.map_some, hparse]
    rfl
  · rw [Function.update_of_ne hk, Std.ExtTreeMap.getElem?_insert, if_neg]
    · exact h k
    · rw [Std.LawfulEqCmp.compare_eq_iff_eq]
      exact Ne.symm hk

theorem Holds.erase (h : Holds docs remote) :
    Holds (Function.update docs id none) { records := remote.records.erase id } := by
  intro k
  by_cases hk : k = id
  · subst hk
    rw [Function.update_self, Std.ExtTreeMap.getElem?_erase_self]
    rfl
  · rw [Function.update_of_ne hk, Std.ExtTreeMap.getElem?_erase, if_neg]
    · exact h k
    · rw [Std.LawfulEqCmp.compare_eq_iff_eq]
      exact Ne.symm hk

/-- The version that the world gives to the record. -/
def givenVersion (remote : RemoteStorageService) (id : String) : Int :=
  match remote.records[id]? with
  | some old => old.version + 1
  | none => 1

theorem Holds.nextVersion_eq (h : Holds docs remote) : nextVersion docs id = givenVersion remote id := by
  unfold nextVersion givenVersion
  cases hdoc : docs id with
  | none => rw [h.absent hdoc]
  | some doc =>
    obtain ⟨record, hrecord, hparse⟩ := h.found hdoc
    rw [hrecord]
    dsimp only
    rw [versionFrom_of_parse hparse]

end Records

/-! ## One call -/

section Settling
variable {codec : TextCodec} {o : Options} {docs docs' : Documents} {remote : RemoteStorageService}
variable {t : List (Performed http Documents)} {sha256Hex : Bytes → String}

/-- The reply and the documents are as the world answers, or the call has failed as a dependency
fails, without its effect or with it. -/
inductive Settled {α : Type} (remote : RemoteStorageService) (answer : Result α × RemoteStorageService)
    (r : Result α) (docs' : Documents) : Prop
  | answered : Agrees r answer.1 → Holds docs' answer.2 → Settled remote answer r docs'
  | failed {e : Error} : r = .error e → IsFault e → Holds docs' remote ∨ Holds docs' answer.2 →
      Settled remote answer r docs'

theorem settled_of_sends {α : Type} {answer : Result α × RemoteStorageService}
    {request : Request} {reply : HttpReply} {returns : HttpReply → Result α}
    (hsends : Sends codec o.baseUrl docs request reply docs') (hholds : Holds docs remote)
    (hknown : Known codec o.baseUrl request)
    (hserves : ∀ reply docs', Serves codec o.baseUrl docs request reply docs' →
      Agrees (returns reply) answer.1 ∧ Holds docs' answer.2)
    (hfault : ∀ reply, Unanswered codec request.verb reply →
      ∃ e, returns reply = .error e ∧ IsFault e) :
    Settled remote answer (returns reply) docs' := by
  cases hsends with
  | served hserved =>
    obtain ⟨hagrees, hnew⟩ := hserves _ _ hserved
    exact .answered hagrees hnew
  | lost hunanswered =>
    obtain ⟨e, hreturns, he⟩ := hfault _ hunanswered
    exact .failed hreturns he (.inl hholds)
  | unheard hserved hunanswered =>
    obtain ⟨e, hreturns, he⟩ := hfault _ hunanswered
    exact .failed hreturns he (.inr (hserves _ _ hserved).2)
  | elsewhere hunknown => exact absurd hknown hunknown

theorem le_nextVersion {id : String} : -2 ^ 63 ≤ nextVersion docs id := by
  unfold nextVersion
  cases docs id with
  | none => decide
  | some old =>
    have hlow : -2 ^ 63 ≤ versionFrom old := by
      unfold versionFrom
      split
      · have hbound := Int.le_bmod (x := ‹Int›) (m := 2 ^ 64) (by decide)
        unfold toInt64
        omega
      · decide
    dsimp only
    omega

theorem putRecord_settled {what : String} {toPut : FileMetadataRecord}
    {r : Result FileMetadataRecord} (hbase : o.baseUrl ≠ "") (hholds : Holds docs remote)
    (hid : toPut.id ≠ "") (hstorable : toPut.Storable)
    (hcarried : codec.parseObject (codec.dump (toJson toPut)) = .ok (toJson toPut))
    (h : (putRecord o codec what toPut).Performs (storage codec o.baseUrl) docs t r docs') :
    Settled remote
      (.ok { toPut with version := givenVersion remote toPut.id },
        { records := remote.records.insert toPut.id
            { toPut with version := givenVersion remote toPut.id } }) r docs' := by
  obtain ⟨reply, hsends, rfl⟩ := sends_of_exchange hbase h
  have hsentId : (toJson toPut).find? "id" = some (.string toPut.id) := by
    rw [(find?_toJson_of_mem hstorable).1, if_neg hid]
  refine settled_of_sends hsends hholds (.put rfl rfl rfl hcarried hsentId) ?_ ?_
  · intro reply docs' hserves
    cases hserves with
    | found hverb => cases hverb
    | absent hverb => cases hverb
    | deleted hverb => cases hverb
    | nothingDeleted hverb => cases hverb
    | upserted _ _ hbody hsent hsomeId hbound hsucceeded hreports =>
      obtain rfl := Option.some.inj hbody
      obtain rfl := Except.ok.inj (hcarried.symm.trans hsent)
      obtain rfl : toPut.id = _ := Value.string.inj (Option.some.inj (hsentId.symm.trans hsomeId))
      have hparse := parse_set_version (parse_toJson hstorable) ⟨le_nextVersion, hbound⟩
      have hfits : FitsLong (nextVersion docs toPut.id) := by
        have hlow : -2 ^ 63 ≤ nextVersion docs toPut.id := le_nextVersion
        unfold FitsLong Http.int64Min Http.int64Max
        omega
      have hread := @parseRecord_of_reports _ .put _ _ _ _ hreports hparse hfits
      rw [← hholds.nextVersion_eq]
      refine ⟨?_, hholds.insert hparse⟩
      rw [outcome, if_pos hsucceeded, hread]
      rfl
  · intro reply hunanswered
    exact outcome_of_unanswered hunanswered (fun hok => hok)
      (fun e _ hbody => parseRecord_of_unparsable hbody) (fun hverb => by cases hverb)

theorem recordUrl_injective {baseUrl id k : String} (h : recordUrl baseUrl id = recordUrl baseUrl k) :
    id = k :=
  (String.append_right_inj _).mp ((String.append_right_inj _).mp h)

/-- The record of the id, as the world finds it. -/
theorem getRecord_settled {what id : String} {r : Result FileMetadataRecord} (hbase : o.baseUrl ≠ "")
    (hholds : Holds docs remote) (hplain : IsPlain id)
    (h : (getRecord o codec what id).Performs (storage codec o.baseUrl) docs t r docs') :
    Settled remote (remoteCall.found remote id, remote) r docs' := by
  obtain ⟨reply, hsends, rfl⟩ := sends_of_exchange hbase h
  refine settled_of_sends hsends hholds (.get hplain rfl rfl) ?_ ?_
  · intro reply docs' hserves
    unfold outcome remoteCall.found
    cases hserves with
    | upserted hverb => cases hverb
    | deleted hverb => cases hverb
    | nothingDeleted hverb => cases hverb
    | found _ hurl hdoc hsucceeded hbody =>
      obtain rfl := recordUrl_injective hurl
      obtain ⟨record, hrecord, hparse⟩ := hholds.found hdoc
      rw [if_pos hsucceeded, hrecord]
      refine ⟨?_, hholds⟩
      change Agrees (parseRecord codec .get reply none) _
      rw [parseRecord_of_record hbody hparse]
      rfl
    | absent _ hurl hdoc hok hstatus =>
      obtain rfl := recordUrl_injective hurl
      rw [if_neg (by simp [succeeded, is2xx, hstatus]), hholds.absent hdoc]
      exact ⟨by simp [Agrees, failKind, err, hok, hstatus, remoteCall.missing], hholds⟩
  · intro reply hunanswered
    exact outcome_of_unanswered hunanswered (fun hok => hok)
      (fun e _ hbody => parseRecord_of_unparsable hbody) (fun hverb => by cases hverb)

/-- The record is gone, if it was there. -/
theorem delete_settled {p id : String} {r : Result Unit} (hbase : o.baseUrl ≠ "")
    (hholds : Holds docs remote) (hplain : IsPlain id)
    (h : (delete o id).Performs (storage codec o.baseUrl) docs t r docs') :
    Settled remote (remoteCall sha256Hex remote (.delete p id)) r docs' := by
  obtain ⟨reply, hsends, rfl⟩ := sends_of_exchange hbase h
  refine settled_of_sends hsends hholds (.post hplain rfl rfl) ?_ ?_
  · intro reply docs' hserves
    have hid : ∀ {k}, recordUrl o.baseUrl (id ++ ":delete") = recordUrl o.baseUrl (k ++ ":delete") →
        id = k := fun hurl => (String.append_left_inj _).mp (recordUrl_injective hurl)
    unfold outcome
    cases hserves with
    | upserted hverb => cases hverb
    | found hverb => cases hverb
    | absent hverb => cases hverb
    | deleted _ hurl hdoc hok hstatus =>
      obtain rfl := hid hurl
      obtain ⟨record, hrecord, -⟩ := hholds.found hdoc
      have hanswer : remoteCall sha256Hex remote (.delete p id) =
          (.ok (), { records := remote.records.erase id }) := by
        simp only [remoteCall, hrecord]
      rw [if_pos (by simp [hok, hstatus]), hanswer]
      exact ⟨rfl, hholds.erase⟩
    | nothingDeleted _ hurl hdoc hok hstatus =>
      obtain rfl := hid hurl
      have hanswer : remoteCall sha256Hex remote (.delete p id) =
          (.error (remoteCall.missing "delete"), remote) := by
        simp only [remoteCall, hholds.absent hdoc]
      rw [if_neg (by simp [hstatus]), hanswer]
      exact ⟨by simp [Agrees, failKind, err, hok, hstatus, remoteCall.missing], hholds⟩
  · intro reply hunanswered
    refine outcome_of_unanswered hunanswered (fun hok => ?_) (fun e hverb _ => absurd rfl hverb) ?_
    · simp only [Bool.and_eq_true, decide_eq_true_eq] at hok
      simp [succeeded, is2xx, hok.1, hok.2]
    · intro _ hok
      simp only [Bool.and_eq_true, decide_eq_true_eq] at hok
      exact hok.2

/-- A refusal without a request. -/
theorem settled_refusal {α : Type} {answer : Result α × RemoteStorageService} {r : Result α}
    {e e' : Error} (hholds : Holds docs remote)
    (h : (pure (.error e) : Program http (Result α)).Performs (storage codec o.baseUrl) docs t r docs')
    (hanswer : answer = (.error e', remote)) (hkind : e.kind = e'.kind) :
    Settled remote answer r docs' := by
  obtain ⟨-, rfl, rfl⟩ := h
  subst hanswer
  exact .answered hkind hholds

theorem settled_noAtomicClaim {α : Type} {r : Result α} (method : String) (hholds : Holds docs remote)
    (h : (pure (.error (noAtomicClaim method)) : Program http (Result α)).Performs
      (storage codec o.baseUrl) docs t r docs') :
    Settled remote (.error (World.noAtomicClaim method), remote) r docs' := by
  refine settled_refusal hholds h rfl ?_
  unfold noAtomicClaim World.noAtomicClaim err
  dsimp only

/-- Every method does what the remote backend of the world does, or fails as a dependency fails. -/
theorem body_settled {call : MetadataCall} {r : Result call.Value} (hbase : o.baseUrl ≠ "")
    (hholds : Holds docs remote) (hfit : Fit codec sha256Hex call)
    (h : (body o codec sha256Hex call).Performs (storage codec o.baseUrl) docs t r docs') :
    Settled remote (remoteCall sha256Hex remote call) r docs' := by
  cases call with
  | create partition record =>
    simp only [body, create] at h
    by_cases hsource : record.fileSource = ""
    · rw [if_pos hsource] at h
      exact settled_refusal hholds h (by rw [remoteCall, if_pos hsource]) rfl
    · rw [if_neg hsource] at h
      have hid : deriveRemoteRecordId sha256Hex partition record.fileSource ≠ "" := by
        simp [deriveRemoteRecordId]
      have hsettled := putRecord_settled hbase hholds hid (hfit.storable _ rfl)
        (hfit.carried _ rfl) h
      rw [remoteCall, if_neg hsource]
      exact hsettled
  | update partition record =>
    simp only [body, update] at h
    by_cases hid : record.id = ""
    · rw [if_pos hid] at h
      exact settled_refusal hholds h (by rw [remoteCall, if_pos hid]) rfl
    · rw [if_neg hid] at h
      have hsettled := putRecord_settled hbase hholds hid (hfit.storable _ rfl)
        (hfit.carried _ rfl) h
      rw [remoteCall, if_neg hid]
      exact hsettled
  | getById partition recordId => exact getRecord_settled hbase hholds (hfit.plain _ rfl) h
  | getLatestByFileSource partition fileSource =>
    exact getRecord_settled hbase hholds (hfit.plain _ rfl) h
  | delete partition recordId => exact delete_settled hbase hholds (hfit.plain _ rfl) h
  | claimForWrite partition record =>
    exact settled_noAtomicClaim "ClaimForWrite" hholds h
  | markReady partition recordId version record =>
    exact settled_noAtomicClaim "MarkReady" hholds h
  | releaseClaim partition recordId version =>
    exact settled_noAtomicClaim "ReleaseClaim" hholds h
  | reclaimStaleClaiming partition olderThan limit sources =>
    exact settled_noAtomicClaim "ReclaimStaleClaiming" hholds h
  | list partition query => exact settled_refusal hholds h rfl rfl

theorem Settled.outcome {call : MetadataCall} {r : Result call.Value}
    (h : Settled remote (remoteCall sha256Hex remote call) r docs') :
    ∃ remote', Outcome sha256Hex remote call r remote' ∧ Holds docs' remote' := by
  cases h with
  | answered hagrees hholds => exact ⟨_, .answered hagrees, hholds⟩
  | failed hr he hholds =>
    rcases hholds with hholds | hholds
    · exact ⟨_, .lost hr he, hholds⟩
    · exact ⟨_, .unacknowledged hr he, hholds⟩

end Settling
end FileService.Remote
