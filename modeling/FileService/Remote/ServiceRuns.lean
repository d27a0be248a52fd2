import FileService.Domain.Schedule
import FileService.Remote.StorageService

/-!
# The service on a storage service

Where the metadata repository is the one of a storage service, any number of
use cases that run at the same time make the calls and get the replies of a run
in which the remote backend of the world answers.
-/
namespace FileService.Remote
open FileService.Common FileService.Domain FileService.Interaction
open FileService.Common.Json.Value (TextCodec)
open FileService.Domain.World (Faults remoteCall)

/-! ## The machines -/

def isMetadata : Port → Bool
  | .metadata _ => true
  | _ => false

section Machines
variable (d : Deployment) (faults : Faults)

/-- The calls of the repository run its methods; the documents of the service take the place of
the records of the world. -/
inductive AdapterExec (o : Options) (codec : TextCodec) :
    World × Documents → (op : Port) → op.Reply → World × Documents → Prop
  | metadata {w : World} {docs docs' : Documents} {call : MetadataCall} {r : Result call.Value}
      {t : List (Performed http Documents)} :
      (body o codec d.sha256Hex call).Performs (storage codec o.baseUrl) docs t r docs' →
      AdapterExec o codec (w, docs) (.metadata call) r (w, docs')
  | other {w w' : World} {docs : Documents} {op : Port} {r : op.Reply} : isMetadata op = false →
      World.Exec d faults w op r w' → AdapterExec o codec (w, docs) op r (w', docs)

def adapterMachine (o : Options) (codec : TextCodec) : Machine ports (World × Documents) where
  exec := AdapterExec d faults o codec
  env s s' := World.Tick faults s.1 s'.1 ∧ s'.2 = s.2

/-- The calls of the repository are answered by the records of the world, or they fail as a
dependency fails. -/
inductive RemoteExec (w : World) : (op : Port) → op.Reply → World → Prop
  | metadata {call : MetadataCall} {r : Result call.Value} {remote' : RemoteStorageService} :
      Outcome d.sha256Hex w.remote call r remote' →
      RemoteExec w (.metadata call) r { w with remote := remote' }
  | other {w' : World} {op : Port} {r : op.Reply} : isMetadata op = false →
      World.Exec d faults w op r w' → RemoteExec w op r w'

def remoteMachine : Machine ports World where
  exec := RemoteExec d faults
  env := World.Tick faults

/-- The calls of the repository may fail in any way. -/
def withMetadata : Faults where
  lost op := isMetadata op = true ∨ faults.lost op
  unacknowledged op := isMetadata op = true ∨ faults.unacknowledged op

end Machines

/-! ## What does not look at the records -/

section Frame
variable {d : Deployment} {faults : Faults} {w w' : World} {op : Port} {r : op.Reply}

theorem exec_of_remote (remote : RemoteStorageService) (hop : isMetadata op = false)
    (h : World.Exec d faults w op r w') :
    World.Exec d faults { w with remote } op r { w' with remote } := by
  cases h with
  | done uuid hfresh =>
    have happly : ({ w with remote } : World).apply d uuid op =
        ((w.apply d uuid op).1, { (w.apply d uuid op).2 with remote }) := by
      cases op <;> first | rfl | cases hop
    have hdone := @World.Exec.done d faults { w with remote } op uuid hfresh
    rw [happly] at hdone
    exact hdone
  | lost hfault hr => exact .lost hfault hr
  | unacknowledged hfault hr =>
    have happly : ({ w with remote } : World).apply d "" op =
        ((w.apply d "" op).1, { (w.apply d "" op).2 with remote }) := by
      cases op <;> first | rfl | cases hop
    have hfailed := @World.Exec.unacknowledged d faults { w with remote } op _ r hfault hr
    rw [happly] at hfailed
    exact hfailed
  | noThread hfault => exact .noThread hfault

theorem tick_of_remote (remote : RemoteStorageService) (h : World.Tick faults w w') :
    World.Tick faults { w with remote } { w' with remote } := by
  cases h with
  | clock dt steady => exact .clock dt steady
  | renew hdue => exact .renew hdue
  | renewLost hdue hfault => exact .renewLost hdue hfault
  | renewUnacknowledged hdue hfault => exact .renewUnacknowledged hdue hfault

/-- More calls may fail. -/
theorem exec_withMetadata (h : World.Exec d faults w op r w') :
    World.Exec d (withMetadata faults) w op r w' := by
  cases h with
  | done uuid hfresh => exact .done uuid hfresh
  | lost hfault hr => exact .lost (.inr hfault) hr
  | unacknowledged hfault hr => exact .unacknowledged (.inr hfault) hr
  | noThread hfault => exact .noThread (.inr hfault)

theorem tick_withMetadata (h : World.Tick faults w w') : World.Tick (withMetadata faults) w w' := by
  cases h with
  | clock dt steady => exact .clock dt steady
  | renew hdue => exact .renew hdue
  | renewLost hdue hfault => exact .renewLost hdue (.inr hfault)
  | renewUnacknowledged hdue hfault => exact .renewUnacknowledged hdue (.inr hfault)

/-- A call that the remote backend refuses changes nothing. -/
theorem remoteCall_of_error {sha256Hex : Bytes → String} {remote : RemoteStorageService}
    {call : MetadataCall} {e : Error} (h : (remoteCall sha256Hex remote call).1 = .error e) :
    (remoteCall sha256Hex remote call).2 = remote := by
  cases call with
  | create partition record =>
    by_cases hsource : record.fileSource = ""
    · rw [remoteCall, if_pos hsource]
    · rw [remoteCall, if_neg hsource] at h
      cases h
  | update partition record =>
    by_cases hid : record.id = ""
    · rw [remoteCall, if_pos hid]
    · rw [remoteCall, if_neg hid] at h
      cases h
  | delete partition recordId =>
    cases hrecord : remote.records[recordId]? with
    | none => simp only [remoteCall, hrecord]
    | some record =>
      simp only [remoteCall, hrecord] at h
      cases h
  | _ => rfl

end Frame

/-! ## Runs -/

section Runs
variable {d : Deployment} {faults : Faults} {o : Options} {codec : TextCodec}

/-- The call suits the service, if it is one of the repository. -/
def FitPort (codec : TextCodec) (sha256Hex : Bytes → String) (op : Port) : Prop :=
  ∀ call, op = .metadata call → Fit codec sha256Hex call

/-- The world with the records of the documents. -/
def Mirrors (s : World × Documents) (w : World) : Prop :=
  Holds s.2 w.remote ∧ w = { s.1 with remote := w.remote }

theorem adapter_refines (hbase : o.baseUrl ≠ "") :
    Machine.Refines (adapterMachine d faults o codec) (remoteMachine d faults)
      (FitPort codec d.sha256Hex) Mirrors where
  exec := by
    intro s w op r s' hfit hmirrors hexec
    obtain ⟨hholds, hw⟩ := hmirrors
    cases hexec with
    | metadata hperforms =>
      obtain ⟨remote', houtcome, hholds'⟩ :=
        (body_settled hbase hholds (hfit _ rfl) hperforms).outcome
      refine ⟨_, .metadata houtcome, hholds', ?_⟩
      rw [hw]
    | @other _ w' docs op r hop hexec =>
      refine ⟨{ w' with remote := w.remote }, ?_, hholds, rfl⟩
      rw [hw]
      exact .other hop (exec_of_remote w.remote hop hexec)
  env := by
    intro s w s' hmirrors henv
    obtain ⟨hholds, hw⟩ := hmirrors
    obtain ⟨htick, hdocs⟩ := henv
    refine ⟨{ s'.1 with remote := w.remote }, ?_, hdocs ▸ hholds, rfl⟩
    rw [hw]
    exact tick_of_remote w.remote htick

/-- Answers and faults of the remote backend are among those of the world. -/
theorem remote_refines (hbackend : d.backend = .remote) :
    Machine.Refines (remoteMachine d faults) (serviceMachine d (withMetadata faults))
      (fun _ => True) Eq where
  exec := by
    rintro w _ op r w' - rfl hexec
    refine ⟨w', ?_, rfl⟩
    cases hexec with
    | other hop hexec => exact exec_withMetadata hexec
    | @metadata call r remote' houtcome =>
      have happly : w.apply d "" (.metadata call) =
          ((remoteCall d.sha256Hex w.remote call).1,
            { w with remote := (remoteCall d.sha256Hex w.remote call).2 }) := by
        simp only [World.apply, hbackend]
      cases houtcome with
      | lost hr he => exact hr ▸ .lost (.inl rfl) rfl
      | unacknowledged hr he =>
        have hfailed := @World.Exec.unacknowledged d (withMetadata faults) w (.metadata call) _ r
          (.inl rfl) (congrArg some hr.symm)
        rw [happly] at hfailed
        exact hfailed
      | answered hagrees =>
        cases hanswer : (remoteCall d.sha256Hex w.remote call).1 with
        | ok a =>
          have hr : r = (remoteCall d.sha256Hex w.remote call).1 := by
            rw [hanswer] at hagrees ⊢
            cases r with
            | ok b => exact congrArg Except.ok hagrees
            | error e => exact hagrees.elim
          have hdone := @World.Exec.done d (withMetadata faults) w (.metadata call) "" (by simp)
          rw [happly] at hdone
          rw [hr]
          exact hdone
        | error e' =>
          rw [hanswer] at hagrees
          cases r with
          | ok b => exact hagrees.elim
          | error e =>
            rw [remoteCall_of_error hanswer]
            exact .lost (.inl rfl) rfl
  env := by
    rintro w _ w' rfl htick
    exact ⟨w', tick_withMetadata htick, rfl⟩

end Runs

/-! ## A record that is created and read -/

section Sample

def storageDeployment : Deployment := { sampleDeployment with backend := .remote }

def sampleId : String := "p:dataset--File.Generic:e3b0c442-98fc-1c14-9afb-f4c8996fb924"

/-- The sample record with its data in place. -/
def givenRecord : FileMetadataRecord :=
  { sampleRecord with
    data :=
      { datasetProperties :=
          { fileSourceInfo := { fileSource := sampleSource, present := true }, present := true } } }

def sentRecord : FileMetadataRecord := { givenRecord with id := sampleId }

theorem derivedId_eq :
    World.deriveRemoteRecordId storageDeployment.sha256Hex "p" givenRecord.fileSource = sampleId := by
  decide

theorem sentRecord_eq : sentRecord =
    { givenRecord with
      id := World.deriveRemoteRecordId storageDeployment.sha256Hex "p" givenRecord.fileSource } := by
  rw [derivedId_eq, sentRecord]

theorem storable_sentRecord : sentRecord.Storable where
  kind := by decide
  version := by decide
  acl := rfl
  legal := rfl
  data :=
    { texts := by decide
      datasetProperties :=
        { present := rfl
          info := { present := rfl, texts := by decide, extra := rfl }
          extra := rfl }
      extensionProperties := rfl
      extra := rfl }
  enums := { endian := by simp [sentRecord, givenRecord], headers := by rintro items ⟨⟩ }
  ancestry := by simp [sentRecord, givenRecord, sampleRecord]
  «meta» := rfl
  tags := rfl
  extra := rfl

def storedDocument : Json.Value := (toJson sentRecord).set "version" (.integer 1)

/-- The text of the record, with what comes at its end. -/
def recordText (last : String) : String :=
  "\x7b\"acl\":\x7b\"owners\":[\"data.x@a.b\"],\"viewers\":[\"data.x@a.b\"]\x7d," ++
    "\"data\":\x7b\"DatasetProperties\":\x7b\"FileSourceInfo\":\x7b\"FileSource\":\"/f\"\x7d\x7d," ++
    "\"ExtensionProperties\":\x7b\x7d\x7d,\"id\":\"" ++ sampleId ++
    "\",\"kind\":\"o:wks:dataset--File.Generic:1.0.0\",\"legal\":\x7b\"legaltags\":[\"t\"]," ++
    "\"otherRelevantDataCountries\":[\"US\"],\"status\":\"compliant\"\x7d,\"meta\":[]" ++ last ++ "\x7d"

/-- The codec on the texts of the record that is sent and of the one that is stored. -/
def recordCodec : TextCodec where
  dump v := if v.contains "version" then recordText ",\"version\":1" else recordText ""
  parseObject text :=
    if text = recordText "" then .ok (toJson sentRecord)
    else if text = recordText ",\"version\":1" then .ok storedDocument
    else .error (err .invalidArgument "JSON 解析失败")

def createAndGet : Program ports (Result FileMetadataRecord) := do
  let _ ← Program.perform (I := ports) (.metadata (.create "p" givenRecord))
  Program.perform (I := ports) (.metadata (.getLatestByFileSource "p" givenRecord.fileSource))

theorem recordText_injective {a b : String} (h : recordText a = recordText b) : a = b :=
  (String.append_right_inj _).mp ((String.append_left_inj _).mp h)

theorem recordText_ne : recordText ",\"version\":1" ≠ recordText "" := by
  intro h
  exact absurd (recordText_injective h) (by decide)

theorem carried_sentRecord :
    recordCodec.parseObject (recordCodec.dump (toJson sentRecord)) = .ok (toJson sentRecord) := by
  have hplain : (toJson sentRecord).contains "version" = false := by decide
  simp only [recordCodec, hplain, Bool.false_eq_true, if_false, if_true]

theorem parse_storedText :
    recordCodec.parseObject (recordText ",\"version\":1") = .ok storedDocument := by
  simp only [recordCodec, if_neg recordText_ne, if_true]

def sampleDocuments : Documents :=
  Function.update (fun _ => none) sampleId (some (upserted (fun _ => none) sampleId (toJson sentRecord)))

def storedReply : HttpReply where
  transportOk := true
  status := 200
  body := recordText ",\"version\":1"

def createdRecord : FileMetadataRecord := { sentRecord with version := 1 }

theorem parse_storedDocument : parseFileMetadataRecord storedDocument = .ok createdRecord :=
  parse_set_version (parse_toJson storable_sentRecord) (by decide)

abbrev sampleAdapter : Machine ports (World × Documents) :=
  adapterMachine storageDeployment .none sampleOptions recordCodec

theorem succeeded_storedReply : succeeded storedReply = true := rfl

theorem parse_storedReply : recordCodec.parseObject storedReply.body = .ok storedDocument :=
  parse_storedText

theorem exec_create : sampleAdapter.exec ({}, fun _ => none) (.metadata (.create "p" givenRecord))
    (.ok createdRecord) ({}, sampleDocuments) := by
  have hid : (toJson sentRecord).find? "id" = some (.string sampleId) := by
    rw [(find?_toJson_of_mem storable_sentRecord).1, if_neg (by decide)]
    rfl
  have hsends : Sends recordCodec sampleOptions.baseUrl (fun _ => none)
      ⟨.put, sampleOptions.baseUrl ++ "/records", headers sampleOptions,
        some (recordCodec.dump (toJson sentRecord))⟩ storedReply sampleDocuments :=
    .served (.upserted rfl rfl rfl carried_sentRecord hid (by decide) rfl (.record parse_storedReply))
  have hperforms : ∃ t, (putRecord sampleOptions recordCodec "PUT /records" sentRecord).Performs
      (storage recordCodec sampleOptions.baseUrl) (fun _ => none) t
      (outcome sampleOptions .put succeeded "PUT /records"
        (fun reply => parseRecord recordCodec .put reply (some sentRecord)) storedReply)
      sampleDocuments := exchange_of_sends (by decide) hsends
  obtain ⟨t, ht⟩ := hperforms
  rw [outcome, if_pos succeeded_storedReply, parseRecord_of_record parse_storedReply parse_storedDocument] at ht
  refine .metadata (t := t) ?_
  have hbody : body sampleOptions recordCodec storageDeployment.sha256Hex (.create "p" givenRecord) =
      putRecord sampleOptions recordCodec "PUT /records" sentRecord := by
    rw [sentRecord_eq, body, create, if_neg (by decide)]
  rw [hbody]
  exact ht

theorem exec_get : sampleAdapter.exec ({}, sampleDocuments)
    (.metadata (.getLatestByFileSource "p" givenRecord.fileSource)) (.ok createdRecord)
    ({}, sampleDocuments) := by
  have hsends : Sends recordCodec sampleOptions.baseUrl sampleDocuments
      ⟨.get, sampleOptions.baseUrl ++ ("/records/" ++ sampleId), headers sampleOptions, none⟩
      storedReply sampleDocuments :=
    .served (.found rfl rfl (Function.update_self ..) rfl parse_storedReply)
  have hperforms : ∃ t, (getRecord sampleOptions recordCodec "GET /records/{derived_id}（按 FileSource 取）"
      sampleId).Performs (storage recordCodec sampleOptions.baseUrl) sampleDocuments t
      (outcome sampleOptions .get succeeded "GET /records/{derived_id}（按 FileSource 取）"
        (fun reply => parseRecord recordCodec .get reply none) storedReply)
      sampleDocuments := exchange_of_sends (by decide) hsends
  obtain ⟨t, ht⟩ := hperforms
  rw [outcome, if_pos succeeded_storedReply, parseRecord_of_record parse_storedReply parse_storedDocument] at ht
  refine .metadata (t := t) ?_
  rw [body, getLatestByFileSource, derivedId_eq]
  exact ht

theorem fit_sample {call : MetadataCall}
    (h : call = .create "p" givenRecord ∨ call = .getLatestByFileSource "p" givenRecord.fileSource) :
    Fit recordCodec storageDeployment.sha256Hex call := by
  rcases h with rfl | rfl
  · refine ⟨by simp [addressed], ?_, ?_⟩
    all_goals
      rintro record ⟨⟩
      rw [← sentRecord_eq]
    · exact storable_sentRecord
    · exact carried_sentRecord
  · refine ⟨?_, by simp [written], by simp [written]⟩
    rintro id ⟨⟩
    rw [derivedId_eq]
    decide +kernel

end Sample

end FileService.Remote
