import FileService.S3.Runs

/-!
# A success of the blob store

The service performs what it answers with a status of the class 2xx; the answer to
a copy is in addition no error document. An operation succeeds on every answer
below 400, so it takes a redirect for a success, and a copy takes an error document
for one, or an object that is not there.
-/
namespace FileService.S3
open FileService.Common FileService.Common.Crypto FileService.Domain FileService.Interaction

namespace S3BlobStore
variable (store : S3BlobStore) {ref source target : ObjectRef} {range : ByteRange}
variable {sourceSize : Option Int} {options : PutOptions}

/-! ## When they succeed -/

/-- The digest of what was sent is the one that was expected, if any was. -/
def ChecksumAgrees (options : PutOptions) (transfer : Transfer) : Prop :=
  options.expectedChecksum = "" ∨
    store.hashes.sha256Hex transfer.upload.sent = octets options.expectedChecksum

theorem putResult_eq_ok {status : Int} {transfer : Transfer} :
    store.putResult options status transfer = .ok () ↔
      status < 400 ∧ store.ChecksumAgrees options transfer := by
  unfold putResult ChecksumAgrees
  dsimp only
  split_ifs with hbad hkind hmismatch
  · simp only [false_iff]
    omega
  · simp only [false_iff]
    omega
  · simp only [false_iff]
    tauto
  · simp only [true_iff]
    exact ⟨by omega, by tauto⟩

theorem removeResult_eq_ok {status : Int} {body : Bytes} :
    removeResult status body = .ok () ↔ status = 404 ∨ status < 400 := by
  unfold removeResult
  split_ifs with hgone hbad
  · simp [hgone]
  · simp only [false_iff]
    omega
  · simp only [true_iff]
    omega

theorem statResult_eq_ok {status : Int} {headers : List (Bytes × Bytes)} :
    (∃ stat, store.statResult status headers = .ok stat) ↔ status = 404 ∨ status < 400 := by
  unfold statResult
  split_ifs with hgone hbad
  · simp [hgone]
  · simp only [exists_false, false_iff]
    omega
  · simp only [Except.ok.injEq, exists_eq', true_iff]
    omega

theorem exists_of_statResult {status : Int} {headers : List (Bytes × Bytes)} {stat : ObjectStat}
    (h : store.statResult status headers = .ok stat) : stat.exists = true ↔ status ≠ 404 := by
  unfold statResult at h
  split_ifs at h with hgone hbad
  · obtain rfl := Except.ok.inj h
    simp [hgone]
  · obtain rfl := Except.ok.inj h
    simp [hgone]

@[simp] theorem copied_exists (body : Bytes) (stat : ObjectStat) :
    (copied body stat).exists = stat.exists := by
  unfold copied
  split_ifs
  · rfl
  · split <;> rfl

variable {t : Trace calling}

/-- A put succeeds on every answer below 400. -/
theorem put_eq_ok {r : Result Unit} (hrun : Runs (store.put ref sourceSize options) t r) :
    r = .ok () ↔ ∃ call x, exchanges t = [(call, x)] ∧ call.Arrives x ∧ x.final.status < 400 ∧
      store.ChecksumAgrees options (call.transfer x) := by
  constructor
  · rintro rfl
    obtain ⟨call, x, rest, -, hcalls, -, harrives, hrest⟩ := store.leads_put.succeeds hrun
    obtain ⟨rfl, hresult⟩ := runs_tryResult.mp hrest
    obtain ⟨hstatus, hagrees⟩ := store.putResult_eq_ok.mp hresult.symm
    exact ⟨call, x, hcalls, harrives, by omega, hagrees⟩
  · rintro ⟨call, x, hcalls, harrives, hstatus, hagrees⟩
    obtain ⟨rest, -, -, -, hrest⟩ := store.leads_put.arrives hrun hcalls harrives
    obtain ⟨-, rfl⟩ := runs_tryResult.mp hrest
    exact store.putResult_eq_ok.mpr ⟨by omega, hagrees⟩

theorem get_eq_ok {r : Result Unit} (hrun : Runs (store.get ref range) t r) :
    r = .ok () ↔ ∃ call x, exchanges t = [(call, x)] ∧ call.download = true ∧ call.Arrives x ∧
      x.final.status < 400 ∧ closings t = [.ok ()] := by
  constructor
  · rintro rfl
    obtain ⟨call, x, rest, hC, hcalls, hclosings, harrives, hrest⟩ := store.leads_get.succeeds hrun
    unfold afterGet at hrest
    split_ifs at hrest with hbad
    · cases hrest.2
    · obtain ⟨reply, others, rfl, hothers⟩ := runs_ask_bind.mp hrest
      obtain ⟨rfl, rfl⟩ := runs_tryResult.mp hothers
      exact ⟨call, x, hcalls, hC, harrives, by omega, hclosings⟩
  · rintro ⟨call, x, hcalls, -, harrives, hstatus, hclosings⟩
    obtain ⟨rest, -, -, hclosings', hrest⟩ := store.leads_get.arrives hrun hcalls harrives
    have hgood : ¬400 ≤ (x.final.status : Int) := by omega
    rw [afterGet, if_neg hgood] at hrest
    obtain ⟨reply, others, rfl, hothers⟩ := runs_ask_bind.mp hrest
    obtain ⟨rfl, rfl⟩ := runs_tryResult.mp hothers
    rw [hclosings] at hclosings'
    exact (List.cons.inj hclosings').1.symm

theorem get_downloads {r : Result Unit} (hrun : Runs (store.get ref range) t r) {call : HttpCall}
    {x : Exchange} (hcalls : exchanges t = [(call, x)]) (harrives : call.Arrives x) :
    call.download = true := by
  obtain ⟨-, hdownload, -⟩ := store.leads_get.arrives hrun hcalls harrives
  exact hdownload

/-- A remove succeeds as well where there is nothing to remove. -/
theorem remove_eq_ok {r : Result Unit} (hrun : Runs (store.remove ref) t r) :
    r = .ok () ↔ ∃ call x, exchanges t = [(call, x)] ∧ call.Arrives x ∧
      (x.final.status = 404 ∨ x.final.status < 400) := by
  constructor
  · rintro rfl
    obtain ⟨call, x, rest, -, hcalls, -, harrives, hrest⟩ := store.leads_remove.succeeds hrun
    obtain ⟨rfl, hresult⟩ := runs_tryResult.mp hrest
    have hstatus := removeResult_eq_ok.mp hresult.symm
    exact ⟨call, x, hcalls, harrives, by omega⟩
  · rintro ⟨call, x, hcalls, harrives, hstatus⟩
    obtain ⟨rest, -, -, -, hrest⟩ := store.leads_remove.arrives hrun hcalls harrives
    obtain ⟨-, rfl⟩ := runs_tryResult.mp hrest
    exact removeResult_eq_ok.mpr (by omega)

/-- A copy that succeeds was answered twice, and its stat is read from the second answer. -/
theorem copy_ok {stat : ObjectStat} (hrun : Runs (store.copy source target) t (.ok stat)) :
    ∃ c₁ x₁ c₂ x₂, exchanges t = [(c₁, x₁), (c₂, x₂)] ∧ c₁.Arrives x₁ ∧ c₂.Arrives x₂ ∧
      x₁.final.status < 400 ∧ (x₂.final.status = 404 ∨ x₂.final.status < 400) ∧
      (stat.exists = true ↔ x₂.final.status ≠ 404) := by
  obtain ⟨c₁, x₁, rest, -, hcalls, -, h₁, hrest⟩ := store.leads_copy.succeeds hrun
  unfold afterCopy at hrest
  split_ifs at hrest with hbad
  · cases hrest.2
  · obtain ⟨c₂, x₂, others, -, hcalls', -, h₂, hothers⟩ := store.leads_copied.succeeds hrest
    rw [runs_tryResult_bind] at hothers
    cases hstat : store.statResult x₂.final.status (c₂.transfer x₂).download.headers with
    | error e =>
      rw [hstat] at hothers
      cases hothers.2
    | ok found =>
      rw [hstat] at hothers
      obtain ⟨rfl, hfound⟩ := runs_pure.mp hothers
      obtain rfl := Except.ok.inj hfound
      have hstatus := store.statResult_eq_ok.mp ⟨found, hstat⟩
      have hexists := store.exists_of_statResult hstat
      rw [hcalls'] at hcalls
      refine ⟨c₁, x₁, c₂, x₂, hcalls, h₁, h₂, by omega, by omega, ?_⟩
      rw [copied_exists, hexists]
      omega

theorem copy_succeeds {r : Result ObjectStat} (hrun : Runs (store.copy source target) t r)
    {c₁ c₂ : HttpCall} {x₁ x₂ : Exchange} (hcalls : exchanges t = [(c₁, x₁), (c₂, x₂)])
    (h₁ : c₁.Arrives x₁) (h₂ : c₂.Arrives x₂) (hgood : x₁.final.status < 400)
    (hstatus : x₂.final.status = 404 ∨ x₂.final.status < 400) : ∃ stat, r = .ok stat := by
  obtain ⟨rest, -, hcalls', -, hrest⟩ := store.leads_copy.arrives hrun hcalls h₁
  have hgood' : ¬400 ≤ (x₁.final.status : Int) := by omega
  rw [afterCopy, if_neg hgood'] at hrest
  obtain ⟨others, -, -, -, hothers⟩ := store.leads_copied.arrives hrest hcalls' h₂
  obtain ⟨found, hfound⟩ := store.statResult_eq_ok.mpr (show (x₂.final.status : Int) = 404 ∨
    (x₂.final.status : Int) < 400 by omega)
  rw [runs_tryResult_bind, hfound] at hothers
  exact ⟨_, (runs_pure.mp hothers).2⟩

end S3BlobStore

/-! ## Success means done -/

/-- The service says that it did what it was asked to do. -/
def Succeeds (x : Exchange) : Prop := 200 ≤ x.final.status ∧ x.final.status < 300

def Redirects (x : Exchange) : Prop := 300 ≤ x.final.status ∧ x.final.status < 400

/-- The bytes of an object that a range asks for. -/
def requested (range : ByteRange) (object : Bytes) : Bytes :=
  if range.length = 0 then object.drop range.offset
  else (object.drop range.offset).take range.length

/-- The service answers with the whole object or with the range of it. -/
structure Serves (object : Bytes) (range : ByteRange) (x : Exchange) : Prop where
  success : Succeeds x → x.final.status = 200 ∨ x.final.status = 206
  whole : x.final.status = 200 → x.document = object
  part : x.final.status = 206 → x.document = requested range object

/-- The answer to a copy tells of an error. -/
def IsErrorDocument (body : Bytes) : Prop := (findText (openTag "Error") body).isSome = true

section Done
variable (t : Trace calling)

def PutDone : Prop := ∃ call x, exchanges t = [(call, x)] ∧ Succeeds x

/-- A redirect arrives, and the digest does not tell otherwise. -/
def PutSlips (store : S3BlobStore) (options : PutOptions) : Prop :=
  ∃ call x, exchanges t = [(call, x)] ∧ call.Arrives x ∧ Redirects x ∧
    store.ChecksumAgrees options (call.transfer x)

/-- The sink was given the bytes that were asked for, and an object was the source of them. -/
def GetDone (object : Bytes) (range : ByteRange) : Prop :=
  ∃ call x, exchanges t = [(call, x)] ∧ Succeeds x ∧
    (call.transfer x).download.sink = requested range object

/-- A redirect arrives, or the whole object where a part of it was asked for. -/
def GetSlips (object : Bytes) (range : ByteRange) : Prop :=
  ∃ call x, exchanges t = [(call, x)] ∧ call.Arrives x ∧ closings t = [.ok ()] ∧
    (Redirects x ∨ x.final.status = 200 ∧ requested range object ≠ object)

/-- The object was removed, or there was none. -/
def RemoveDone : Prop :=
  ∃ call x, exchanges t = [(call, x)] ∧ (Succeeds x ∨ x.final.status = 404)

def RemoveSlips : Prop := ∃ call x, exchanges t = [(call, x)] ∧ call.Arrives x ∧ Redirects x

/-- The object was copied, and the stat is the one of the copy. -/
def CopyDone (stat : ObjectStat) : Prop :=
  ∃ c₁ x₁ c₂ x₂, exchanges t = [(c₁, x₁), (c₂, x₂)] ∧ Succeeds x₁ ∧
    ¬IsErrorDocument x₁.document ∧ Succeeds x₂ ∧ stat.exists = true

/-- Both answers arrive and none is refused, but the copy is answered with a redirect or an
error document, or the look at its target with a redirect or with its absence. -/
def CopySlips : Prop :=
  ∃ c₁ x₁ c₂ x₂, exchanges t = [(c₁, x₁), (c₂, x₂)] ∧ c₁.Arrives x₁ ∧ c₂.Arrives x₂ ∧
    x₁.final.status < 400 ∧ (x₂.final.status = 404 ∨ x₂.final.status < 400) ∧
    (Redirects x₁ ∨ IsErrorDocument x₁.document ∨ x₂.final.status = 404 ∨ Redirects x₂)

end Done

theorem succeeds_or_redirects {x : Exchange} (h : x.final.status < 400) :
    Succeeds x ∨ Redirects x := by
  have := x.final_status
  unfold Succeeds Redirects
  omega

theorem not_succeeds {x : Exchange} (h : Redirects x) : ¬Succeeds x := by
  unfold Redirects at h
  unfold Succeeds
  omega

section Claims
variable (store : S3BlobStore) {t : Trace calling} {ref source target : ObjectRef}

theorem put_done_iff {sourceSize : Option Int} {options : PutOptions} {r : Result Unit}
    (hrun : Runs (store.put ref sourceSize options) t r) :
    (r = .ok () → PutDone t) ↔ ¬PutSlips t store options := by
  rw [store.put_eq_ok hrun]
  constructor
  · rintro h ⟨call, x, hcalls, harrives, hredirects, hagrees⟩
    obtain ⟨call', x', hcalls', hsucceeds⟩ := h ⟨call, x, hcalls, harrives, hredirects.2, hagrees⟩
    rw [hcalls] at hcalls'
    cases hcalls'
    exact not_succeeds hredirects hsucceeds
  · rintro h ⟨call, x, hcalls, harrives, hstatus, hagrees⟩
    rcases succeeds_or_redirects hstatus with hsucceeds | hredirects
    · exact ⟨call, x, hcalls, hsucceeds⟩
    · exact absurd ⟨call, x, hcalls, harrives, hredirects, hagrees⟩ h

theorem get_done_iff {range : ByteRange} {object : Bytes} {r : Result Unit}
    (hrun : Runs (store.get ref range) t r)
    (hserves : ∀ call x, (call, x) ∈ exchanges t → Serves object range x) :
    (r = .ok () → GetDone t object range) ↔ ¬GetSlips t object range := by
  rw [store.get_eq_ok hrun]
  constructor
  · rintro h ⟨call, x, hcalls, harrives, hclosings, hwrong⟩
    have hgood : x.final.status < 400 := by
      rcases hwrong with hredirects | ⟨hwhole, -⟩
      · exact hredirects.2
      · omega
    have hdownload := store.get_downloads hrun hcalls harrives
    obtain ⟨call', x', hcalls', hsucceeds, hsink⟩ :=
      h ⟨call, x, hcalls, hdownload, harrives, hgood, hclosings⟩
    rw [hcalls] at hcalls'
    cases hcalls'
    rcases hwrong with hredirects | ⟨hwhole, hpart⟩
    · exact not_succeeds hredirects hsucceeds
    · have hobject := (hserves call x (by simp [hcalls])).whole hwhole
      rw [sink_of_arrives harrives hdownload hgood, hobject] at hsink
      exact hpart hsink.symm
  · rintro h ⟨call, x, hcalls, hdownload, harrives, hstatus, hclosings⟩
    have hserved := hserves call x (by simp [hcalls])
    rcases succeeds_or_redirects hstatus with hsucceeds | hredirects
    · refine ⟨call, x, hcalls, hsucceeds, ?_⟩
      rw [sink_of_arrives harrives hdownload hstatus]
      rcases hserved.success hsucceeds with hwhole | hpart
      · rw [hserved.whole hwhole]
        by_contra hne
        exact h ⟨call, x, hcalls, harrives, hclosings, .inr ⟨hwhole, Ne.symm hne⟩⟩
      · exact hserved.part hpart
    · exact absurd ⟨call, x, hcalls, harrives, hclosings, .inl hredirects⟩ h

theorem remove_done_iff {r : Result Unit} (hrun : Runs (store.remove ref) t r) :
    (r = .ok () → RemoveDone t) ↔ ¬RemoveSlips t := by
  rw [store.remove_eq_ok hrun]
  constructor
  · rintro h ⟨call, x, hcalls, harrives, hredirects⟩
    obtain ⟨call', x', hcalls', hdone⟩ := h ⟨call, x, hcalls, harrives, .inr hredirects.2⟩
    rw [hcalls] at hcalls'
    cases hcalls'
    rcases hdone with hsucceeds | hgone
    · exact not_succeeds hredirects hsucceeds
    · have := hredirects.2
      omega
  · rintro h ⟨call, x, hcalls, harrives, hgone | hstatus⟩
    · exact ⟨call, x, hcalls, .inr hgone⟩
    · rcases succeeds_or_redirects hstatus with hsucceeds | hredirects
      · exact ⟨call, x, hcalls, .inl hsucceeds⟩
      · exact absurd ⟨call, x, hcalls, harrives, hredirects⟩ h

theorem copy_done_iff {r : Result ObjectStat} (hrun : Runs (store.copy source target) t r) :
    (∀ stat, r = .ok stat → CopyDone t stat) ↔ ¬CopySlips t := by
  constructor
  · rintro h ⟨c₁, x₁, c₂, x₂, hcalls, h₁, h₂, hgood, hstatus, hwrong⟩
    obtain ⟨stat, hok⟩ := store.copy_succeeds hrun hcalls h₁ h₂ hgood hstatus
    obtain ⟨c₁', x₁', c₂', x₂', hcalls', hcopied, herror, hfound, -⟩ := h stat hok
    rw [hcalls] at hcalls'
    cases hcalls'
    rcases hwrong with hredirects | hdocument | hgone | hredirects
    · exact not_succeeds hredirects hcopied
    · exact herror hdocument
    · have := hfound.2
      omega
    · exact not_succeeds hredirects hfound
  · rintro h stat rfl
    obtain ⟨c₁, x₁, c₂, x₂, hcalls, h₁, h₂, hgood, hstatus, hexists⟩ := store.copy_ok hrun
    have hslips : ¬(Redirects x₁ ∨ IsErrorDocument x₁.document ∨ x₂.final.status = 404 ∨
        Redirects x₂) := fun hwrong =>
      h ⟨c₁, x₁, c₂, x₂, hcalls, h₁, h₂, hgood, hstatus, hwrong⟩
    simp only [not_or] at hslips
    obtain ⟨hcopied, hdocument, hthere, hfound⟩ := hslips
    have hbelow : x₂.final.status < 400 := hstatus.resolve_left hthere
    exact ⟨c₁, x₁, c₂, x₂, hcalls, (succeeds_or_redirects hgood).resolve_right hcopied, hdocument,
      (succeeds_or_redirects hbelow).resolve_right hfound, hexists.mpr hthere⟩

end Claims

/-! ## A service that redirects -/

def sampleStore : S3BlobStore where
  options :=
    { endpoint := octets "s3"
      credentials := { accessKey := octets "key", secretKey := octets "secret" } }
  hashes := ⟨fun _ => [], fun _ _ => []⟩
  parseObjectTimestamp := fun _ => 0

/-- An answer with a document, delivered at once. -/
def answerWith (head : Head) (hstatus : 200 ≤ head.status) (body : Bytes) : Exchange where
  final := head
  body := [body]
  callbacks := head.lines.map .header ++ [.write body (.ok ())]
  final_status := hstatus
  delivered := by simp [Head.parts, List.filterMap_append, Function.comp_def, Callback.part?]
  complete := by simp [Head.parts, List.filterMap_append, Function.comp_def, Callback.part?]

/-- The time is zero and every call is answered alike. -/
def answering (x : Exchange) : (call : S3Call) → call.Reply
  | .nowEpochSeconds => (0 : Int)
  | .perform _ => x
  | .closeSink => (.ok () : Result Unit)

def sampleRun {α : Type} (p : Operation α) (x : Exchange) : Trace calling × Result α :=
  (ExceptT.run p).answered (answering x)

theorem runs_sampleRun {α : Type} (p : Operation α) (x : Exchange) :
    Runs p (sampleRun p x).1 (sampleRun p x).2 :=
  Program.emits_answered (I := calling) (answering x) (ExceptT.run p)

def sampleRef : ObjectRef := { container := "bucket", key := "object" }

def samplePut : Operation Unit := sampleStore.put sampleRef none {}
def sampleGet : Operation Unit := sampleStore.get sampleRef {}
def sampleCopy : Operation ObjectStat := sampleStore.copy sampleRef { sampleRef with key := "copy" }

instance (x : Exchange) : Decidable (Redirects x) := inferInstanceAs (Decidable (_ ∧ _))

instance (x : Exchange) : Decidable (Succeeds x) := inferInstanceAs (Decidable (_ ∧ _))

instance (body : Bytes) : Decidable (IsErrorDocument body) := inferInstanceAs (Decidable (_ = true))

def stored : Exchange := answerWith { status := 200 } (by decide) (octets "object")

def moved : Exchange := answerWith { status := 301 } (by decide) (octets "<html/>")

/-- Two hundred, and what went wrong. -/
def failedCopy : Exchange :=
  answerWith { status := 200 } (by decide) (octets "<Error><Code>InternalError</Code></Error>")

end FileService.S3
