import FileService.Posix.PublishedPut

/-!
# What a failed put leaves

A put that fails leaves the object as it was, whatever it was, exactly if it has
not published the object before it failed.
-/
namespace FileService.Posix
open FileService.Common FileService.Domain FileService.Interaction

/-! ## The calls of a put -/

section BlindParts
variable {path tmp : String} {store : PosixBlobStore} {file : Handle} {α : Type}

theorem cleanup_throw_uses (htmp : tmp ≠ path) {e : Error} :
    (ExceptT.run (PosixBlobStore.cleanup file tmp >>= fun _ => throw e : Attempt α)).Uses
      (Blind path) fun _ => True :=
  ⟨rfl, fun _ => ⟨htmp, fun _ => trivial⟩⟩

theorem unlink_throw_uses (htmp : tmp ≠ path) {e : Error} :
    (ExceptT.run (Attempt.tell (.unlink tmp) >>= fun _ => throw e : Attempt α)).Uses
      (Blind path) fun _ => True :=
  ⟨htmp, fun _ => trivial⟩

theorem receive_uses (htmp : tmp ≠ path) (failure : Option Error) (chunks : List Bytes)
    (received : Bytes) :
    (ExceptT.run (PosixBlobStore.receive file tmp failure chunks received)).Uses (Blind path)
      fun _ => True := by
  induction chunks generalizing received with
  | nil =>
    unfold PosixBlobStore.receive
    cases failure with
    | some e => exact cleanup_throw_uses htmp
    | none => exact trivial
  | cons chunk chunks ih =>
    unfold PosixBlobStore.receive
    split_ifs
    · exact trivial
    · refine uses_action_bind (ask_uses rfl) (fun r _ => ?_) fun _ _ => trivial
      cases r with
      | error failure => exact cleanup_throw_uses htmp
      | ok u => exact ih _

theorem closeObject_uses (htmp : tmp ≠ path) {data : Bytes} :
    (ExceptT.run (do
      match ← Attempt.ask (.close file) with
      | .error failure =>
        Attempt.tell (.unlink tmp)
        throw (errFromErrno "close 失败" failure)
      | .ok _ => return data)).Uses (Blind path) fun _ => True := by
  refine uses_action_bind (ask_uses rfl) (fun r _ => ?_) fun _ _ => trivial
  cases r with
  | error failure => exact unlink_throw_uses htmp
  | ok u => exact trivial

theorem writeObject_uses (htmp : tmp ≠ path) (source : PosixBlobStore.ByteSource)
    (options : PutOptions) :
    (ExceptT.run (store.writeObject file tmp source options)).Uses (Blind path) fun _ => True := by
  refine uses_action_bind (receive_uses htmp source.failure source.chunks []) (fun data _ => ?_)
    fun _ _ => trivial
  cases store.checkReceived data options with
  | error e => exact cleanup_throw_uses htmp
  | ok u =>
    dsimp only
    split_ifs
    · refine uses_action_bind (ask_uses rfl) (fun r _ => ?_) fun _ _ => trivial
      cases r with
      | error e => exact cleanup_throw_uses htmp
      | ok u => exact closeObject_uses htmp
    · exact closeObject_uses htmp

theorem writeTmpFile_uses (htmp : tmp ≠ path) (data : Bytes) :
    (ExceptT.run (PosixBlobStore.writeTmpFile tmp data)).Uses (Blind path) fun _ => True := by
  refine uses_action_bind (ask_uses rfl) (fun r _ => ?_) fun _ _ => trivial
  cases r with
  | error failure => exact trivial
  | ok file =>
    refine uses_action_bind (ask_uses rfl) (fun r _ => ?_) fun _ _ => trivial
    cases r with
    | error failure => exact cleanup_throw_uses htmp
    | ok u =>
      refine uses_action_bind (ask_uses rfl) (fun r _ => ?_) fun _ _ => trivial
      cases r with
      | error failure => exact unlink_throw_uses htmp
      | ok u => exact trivial

/-- A temporary name of the sidecar. -/
theorem sidecar_temp_ne {rest : String} : sidecarOf path ++ tempMarker ++ rest ≠ path := by
  rw [String.append_assoc]
  exact aside_temp.2.1

/-- The calls that writing the sidecar of an object takes. -/
def WritesSidecar (path : String) : Call → Prop
  | .openTruncated target => ∃ rest, target = sidecarOf path ++ tempMarker ++ rest
  | .unlink target => ∃ rest, target = sidecarOf path ++ tempMarker ++ rest
  | .rename source target =>
    (∃ rest, source = sidecarOf path ++ tempMarker ++ rest) ∧ target = sidecarOf path
  | .writeAll .. => True
  | .close _ => True
  | .openDirectory _ => True
  | call => isQuiet call = true

theorem blind_of_writesSidecar {call : Call} (h : WritesSidecar path call) : Blind path call := by
  cases call with
  | openTruncated target =>
    obtain ⟨rest, rfl⟩ := h
    exact sidecar_temp_ne
  | unlink target =>
    obtain ⟨rest, rfl⟩ := h
    exact sidecar_temp_ne
  | rename source target =>
    obtain ⟨⟨rest, rfl⟩, -⟩ := h
    exact sidecar_temp_ne
  | _ => first | rfl | cases h

theorem syncParent_writes {target : String} :
    (ExceptT.run (PosixBlobStore.syncParent target)).Uses (WritesSidecar path) fun _ => True := by
  unfold PosixBlobStore.syncParent
  dsimp only
  split_ifs
  · exact trivial
  · refine uses_action_bind (ask_uses trivial) (fun r _ => ?_) fun _ _ => trivial
    cases r with
    | error failure => exact trivial
    | ok file =>
      refine uses_action_bind (ask_uses rfl) (fun synced _ => ?_) fun _ _ => trivial
      refine ⟨trivial, fun _ => ?_⟩
      cases synced with
      | error failure => exact trivial
      | ok u => exact trivial

theorem writeDurably_writes (data : Bytes) (fsync : Bool) :
    (ExceptT.run (PosixBlobStore.writeDurably file data fsync)).Uses (WritesSidecar path)
      fun _ => True := by
  refine uses_action_bind (ask_uses trivial) (fun r _ => ?_) fun _ _ => trivial
  cases r with
  | error failure => exact trivial
  | ok u =>
    dsimp only
    split_ifs
    · exact ⟨rfl, fun _ => trivial⟩
    · exact trivial

theorem writeSidecar_writes (st : ObjectStat) (fsync : Bool) :
    (ExceptT.run (store.writeSidecar path st fsync)).Uses (WritesSidecar path) fun _ => True := by
  refine uses_action_bind (ask_uses rfl) (fun hex _ => ?_) fun _ _ => trivial
  have htmp : ∃ rest, sidecarOf path ++ tempMarker ++ toString store.pid ++ "." ++
      store.instanceId ++ (if store.instanceId = "" then "" else ".") ++ hex =
        sidecarOf path ++ tempMarker ++ rest := by
    simp only [String.append_assoc]
    exact ⟨_, rfl⟩
  have hdrop : ∀ {e : Error}, (ExceptT.run (Attempt.tell (.unlink (sidecarOf path ++ tempMarker ++
      toString store.pid ++ "." ++ store.instanceId ++
        (if store.instanceId = "" then "" else ".") ++ hex)) >>= fun _ => throw e : Attempt Unit)).Uses
      (WritesSidecar path) fun _ => True := ⟨htmp, fun _ => trivial⟩
  refine uses_action_bind (ask_uses htmp) (fun r _ => ?_) fun _ _ => trivial
  cases r with
  | error failure => exact trivial
  | ok file =>
    refine uses_action_bind (writeDurably_writes _ _) (fun written _ => ?_) fun _ _ => trivial
    refine uses_action_bind (ask_uses trivial) (fun closed _ => ?_) fun _ _ => trivial
    cases written with
    | error failure => cases closed <;> exact hdrop
    | ok u =>
      cases closed with
      | error failure => exact hdrop
      | ok u =>
        refine uses_action_bind (ask_uses ⟨htmp, rfl⟩) (fun r _ => ?_) fun _ _ => trivial
        cases r with
        | error failure => exact hdrop
        | ok u =>
          dsimp only
          split_ifs
          · exact syncParent_writes
          · exact trivial

theorem writeSidecar_uses (st : ObjectStat) (fsync : Bool) :
    (ExceptT.run (store.writeSidecar path st fsync)).Uses (Blind path) fun _ => True :=
  Program.uses_mono (fun _ => blind_of_writesSidecar) (writeSidecar_writes st fsync)

theorem publishAlone_uses (hatomic : store.atomicWrite = true) (htmp : tmp ≠ path) (st : ObjectStat)
    (needSync : Bool) :
    (ExceptT.run (store.publishAlone tmp path st needSync)).Uses (Blind path) fun _ => True := by
  unfold PosixBlobStore.publishAlone
  rw [if_pos hatomic]
  refine uses_action_bind (ask_uses htmp) (fun r _ => ?_) fun _ _ => trivial
  cases r with
  | error failure => exact unlink_throw_uses htmp
  | ok u =>
    dsimp only
    split_ifs
    · exact ⟨rfl, fun _ => writeSidecar_uses st needSync⟩
    · exact writeSidecar_uses st needSync

end BlindParts

section BlindPut
variable {path tmp sidecarTmp : String} {store : PosixBlobStore} {ref : ObjectRef} {α : Type}
variable {s s' : Session}

theorem tempPathFor_uses {K : Call → Prop} {target : String} (hcall : K .nextTmpCounter) :
    (ExceptT.run (store.tempPathFor target)).Uses K
      fun out => ∃ rest, out = .ok (target ++ (tempMarker ++ rest)) := by
  refine uses_action_bind (ask_uses hcall) (fun counter _ => ?_) fun e he => by simp at he
  change ∃ rest, Except.ok _ = Except.ok (target ++ (tempMarker ++ rest))
  simp only [String.append_assoc]
  exact ⟨_, rfl⟩

theorem AllBlind.add (h : AllBlind path s) {op : Call} {r : op.Reply} (hop : Blind path op)
    (hacts : FileActs s op r s') : AllBlind path s' := by
  intro o ho
  rw [hacts.2.2] at ho
  rcases List.mem_append.mp ho with hold | hnew
  · exact h o hold
  · rw [List.mem_singleton.mp hnew]
    exact hop

theorem ensures_allBlind {syncDir : Bool} {x : Attempt α} {U : Result α → Prop}
    (hx : (ExceptT.run x).Uses (Blind path) U) :
    Interaction.Action.Ensures (Acts syncDir) (AllBlind path) x
      (fun a s => U (.ok a) ∧ AllBlind path s) fun _ => AllBlind path :=
  Interaction.Action.ensures_of_uses hx fun _ _ _ _ hop hs hacts =>
    hs.add hop ((acts_of_isFileCall (isFileCall_of_blind hop)).mp hacts)

theorem allBlind_of_uses {syncDir : Bool} {x : Attempt α} {U : Result α → Prop}
    (hx : (ExceptT.run x).Uses (Blind path) U) :
    Interaction.Action.Ensures (Acts syncDir) (AllBlind path) x (fun _ => AllBlind path)
      fun _ => AllBlind path :=
  (ensures_allBlind hx).mono (fun _ hs => hs) (fun _ _ hs => hs.2) fun _ _ hs => hs

theorem allBlind_ask {syncDir : Bool} {call : Call} (hcall : Blind path call) :
    Interaction.Action.Ensures (Acts syncDir) (AllBlind path) (Attempt.ask call)
      (fun _ => AllBlind path) fun _ => AllBlind path :=
  allBlind_of_uses (ask_uses hcall)

theorem allBlind_commitBatch {syncDir : Bool} {entries : List BatchEntry}
    (h : ∀ entry ∈ entries, EntrySpares path entry) :
    Program.Ensures FileActs (AllBlind path) (commitBatch syncDir entries)
      fun _ => AllBlind path := by
  have huses : (commitBatch syncDir entries).Uses (Blind path) fun _ => True := by
    refine commitBatch_uses (fun _ => rfl) (fun _ => rfl) (fun entry hentry name hname => ?_)
      fun entry hentry rename hrename => ?_
    · exact ((h entry hentry).tmps name hname).1
    · exact ((h entry hentry).tmps rename.tmp (List.mem_map_of_mem hrename)).1
  exact (Program.ensures_of_uses huses fun _ _ _ _ hop hs hacts => hs.add hop hacts).mono
    (fun _ hs => hs) fun _ _ hs => hs.2

theorem allBlind_joinBatch (htmp : Aside path tmp) (hsidecarTmp : Aside path sidecarTmp) :
    Interaction.Action.Ensures (Acts store.syncDirAfterBatch) (AllBlind path)
      (store.joinBatch (objectRenames path tmp sidecarTmp)) (fun _ => AllBlind path)
      fun _ => AllBlind path :=
  ensures_joinBatch htmp hsidecarTmp (fun _ => allBlind_commitBatch)
    (fun _ _ _ _ hop hs hacts => hs.add (blind_of_isQuiet hop) hacts) fun _ _ hs => hs

theorem allBlind_publishInBatch (htmp : Aside path tmp) (st : ObjectStat) :
    Interaction.Action.Ensures (Acts store.syncDirAfterBatch) (AllBlind path)
      (store.publishInBatch tmp path st) (fun _ => AllBlind path) fun _ => AllBlind path := by
  refine (ensures_allBlind (tempPathFor_uses rfl)).bind fun sidecarTmp => ?_
  refine .of_fact (fun s hs => hs.1) fun hvalue => ?_
  obtain ⟨rest, hrest⟩ := hvalue
  obtain rfl := Except.ok.inj hrest
  have hsidecarTmp : Aside path (sidecarOf path ++ (tempMarker ++ rest)) := aside_temp.2
  have hwrite : (ExceptT.run (Attempt.result (PosixBlobStore.writeTmpFile
      (sidecarOf path ++ (tempMarker ++ rest)) (store.dump (PosixBlobStore.metaOf st))))).Uses
        (Blind path) fun _ => True :=
    Program.uses_bind (writeTmpFile_uses hsidecarTmp.1 _) fun _ _ => trivial
  refine ((ensures_allBlind hwrite).mono (fun s hs => hs.2) (fun _ _ hs => hs) fun _ _ hs => hs).bind
    fun out => ?_
  refine Interaction.Action.Ensures.mono ?_ (fun s hs => hs.2) (fun _ _ hs => hs) fun _ _ hs => hs
  cases out with
  | error e => exact allBlind_of_uses (unlink_throw_uses htmp.1)
  | ok u => exact allBlind_joinBatch htmp hsidecarTmp

theorem allBlind_putAt (hatomic : store.atomicWrite = true) (source : PosixBlobStore.ByteSource)
    (options : PutOptions) :
    Interaction.Action.Ensures (Acts store.syncDirAfterBatch) (AllBlind path)
      (store.putAt path source options) (fun _ => AllBlind path) fun _ => AllBlind path := by
  have htarget : store.targetOf path = store.tempPathFor path := if_pos hatomic
  unfold PosixBlobStore.putAt
  rw [htarget]
  refine (ensures_allBlind (tempPathFor_uses rfl)).bind fun tmp => ?_
  refine .of_fact (fun s hs => hs.1) fun hvalue => ?_
  obtain ⟨rest, hrest⟩ := hvalue
  obtain rfl := Except.ok.inj hrest
  have htmp : Aside path (path ++ (tempMarker ++ rest)) := aside_temp.1
  have hopen : store.openTarget (path ++ (tempMarker ++ rest)) =
      Attempt.ask (.openExclusive (path ++ (tempMarker ++ rest))) := if_pos hatomic
  rw [hopen]
  refine .mono ?_ (fun s hs => hs.2) (fun _ _ hs => hs) fun _ _ hs => hs
  refine .bind (allBlind_ask rfl) fun r => ?_
  cases r with
  | error failure => exact Interaction.Action.ensures_throw fun _ hs => hs
  | ok file =>
    refine .bind (allBlind_of_uses (writeObject_uses htmp.1 source options)) fun received => ?_
    refine .bind (allBlind_ask rfl) fun now => ?_
    dsimp only
    split_ifs
    · exact allBlind_publishInBatch htmp _
    · exact allBlind_of_uses (publishAlone_uses hatomic htmp.1 _ _)

theorem allBlind_put (hatomic : store.atomicWrite = true) (hpath : store.pathOf ref = .ok path)
    (source : PosixBlobStore.ByteSource) (options : PutOptions) :
    Interaction.Action.Ensures (Acts store.syncDirAfterBatch) (AllBlind path)
      (store.put ref source options) (fun _ => AllBlind path) fun _ => AllBlind path := by
  refine (ensures_allBlind (writableObjectPath_uses fun _ => blind_of_isQuiet)).bind fun found => ?_
  refine .of_fact (fun s hs => hs.1) fun hvalue => ?_
  obtain rfl : found = path := Except.ok.inj ((hvalue found rfl).symm.trans hpath)
  exact (allBlind_putAt hatomic source options).mono (fun _ hs => hs.2) (fun _ _ hs => hs)
    fun _ _ hs => hs

end BlindPut

/-! ## A put that writes in place -/

section InPlace
variable {path : String} {store : PosixBlobStore} {ref : ObjectRef} {fs fs₁ : FileSystem}
variable {bytes : Bytes} {s : Session} {source : PosixBlobStore.ByteSource} {options : PutOptions}
variable {e : Error} {t : List (Performed posix Session)}

/-- The files with an object of these bytes. -/
def FileSystem.withContent (fs : FileSystem) (path : String) (bytes : Bytes) : FileSystem :=
  match fs.names path with
  | some i => fs.setData i bytes
  | none => (fs.create path).setData fs.next bytes

theorem contentAt_withContent : (fs.withContent path bytes).contentAt path = some bytes := by
  unfold FileSystem.withContent
  cases hi : fs.names path with
  | some i => simp [FileSystem.contentAt, FileSystem.setData, hi]
  | none => simp [FileSystem.contentAt, FileSystem.setData, FileSystem.create]

/-- Opening the object in place makes all old bytes the same. -/
theorem openTruncated_withContent (bytes : Bytes) :
    (fs.withContent path bytes).atRest.openTruncated path = fs.atRest.openTruncated path := by
  unfold FileSystem.withContent
  cases hi : fs.names path with
  | some i =>
    have hi₀ : fs.atRest.names path = some i := hi
    have hi₁ : (fs.setData i bytes).atRest.names path = some i := hi
    rw [FileSystem.openTruncated_of_some hi₀, FileSystem.openTruncated_of_some hi₁]
    ext1 <;> try rfl
    change Function.update (Function.update fs.data i bytes) i [] = Function.update fs.data i []
    rw [Function.update_idem]
  | none =>
    have hi₀ : fs.atRest.names path = none := hi
    have hi₁ : ((fs.create path).setData fs.next bytes).atRest.names path = some fs.next :=
      Function.update_self path _ fs.names
    rw [FileSystem.openTruncated_of_none hi₀, FileSystem.openTruncated_of_some hi₁]
    ext1 <;> try rfl
    change Function.update (Function.update (Function.update fs.data fs.next []) fs.next bytes)
      fs.next [] = Function.update fs.data fs.next []
    rw [Function.update_idem, Function.update_idem]

theorem not_publishes_of_isQuiet {op : Call} {r : op.Reply} (hop : isQuiet op = true) :
    ¬publishes path ⟨op, r⟩ := by
  cases op <;> first | exact id | cases hop

/-- Before the path is known nothing has happened to the files. -/
theorem writableObjectPath_quiet (path : String) {syncDir : Bool} {out : Result String}
    (h : (ExceptT.run (store.writableObjectPath ref.container ref.key)).Performs (Acts syncDir)
      (Session.start fs) t out s) :
    (∀ found, out = .ok found → store.pathOf ref = .ok found) ∧ s.files = fs.atRest ∧
      ¬Published path s.calls := by
  have huses := @writableObjectPath_uses store ref (isQuiet · = true) fun _ hcall => hcall
  have hends : Program.Ensures (Acts syncDir)
      (fun s => s.files = fs.atRest ∧ ¬Published path s.calls)
      (ExceptT.run (store.writableObjectPath ref.container ref.key)) (fun out s =>
        (∀ found, out = .ok found → store.pathOf ref = .ok found) ∧ s.files = fs.atRest ∧
          ¬Published path s.calls) := by
    refine Program.ensures_of_uses huses fun s op r s' hop hs hacts => ?_
    obtain ⟨hfiles, -, hcalls⟩ := fileActs_of_isQuiet hop hacts
    refine ⟨hfiles.trans hs.1, fun hpub => ?_⟩
    rw [hcalls, published_append_singleton] at hpub
    exact hpub.elim hs.2 (not_publishes_of_isQuiet hop)
  exact hends _ t out s ⟨rfl, by rintro ⟨o, ho, -⟩; cases ho⟩ h

/-- The way to the path is the same on other files. -/
theorem writableObjectPath_replayed {syncDir : Bool} {out : Result String}
    (h : (ExceptT.run (store.writableObjectPath ref.container ref.key)).Performs (Acts syncDir)
      (Session.start fs) t out s) (fs₁ : FileSystem) :
    ∃ t₁, (ExceptT.run (store.writableObjectPath ref.container ref.key)).Performs (Acts syncDir)
      (Session.start fs₁) t₁ out { s with files := fs₁.atRest } := by
  have huses := @writableObjectPath_uses store ref (isQuiet · = true) fun _ hcall => hcall
  have hstep : ∀ call ∈ t, ∀ s₁, Acts syncDir call.before call.op call.reply call.after →
      s₁ = { call.before with files := fs₁.atRest } → ∃ s₁', Acts syncDir s₁ call.op call.reply s₁' ∧
        s₁' = { call.after with files := fs₁.atRest } := by
    rintro call hcall s₁ hacts rfl
    have hop := h.op_of_uses huses call hcall
    obtain ⟨-, hseat, hcalls⟩ := fileActs_of_isQuiet hop hacts
    refine ⟨_, (acts_of_isFileCall (isFileCall_of_isQuiet hop)).mpr ?_, rfl⟩
    exact ⟨(does_iff_of_isQuiet hop).mpr rfl, hseat, hcalls⟩
  obtain ⟨t₁, s₁, hperforms, rfl⟩ := h.simulate
    (T := fun s s₁ => s₁ = { s with files := fs₁.atRest }) hstep rfl
  exact ⟨t₁, hperforms⟩

/-- A put in place that published goes the same way on all files that it makes the same. -/
theorem put_in_place_replayed (hatomic : store.atomicWrite = false)
    (hpath : store.pathOf ref = .ok path)
    (h : (ExceptT.run (store.put ref source options)).Performs (Acts store.syncDirAfterBatch)
      (Session.start fs) t (.error e) s) (hpub : Published path s.calls)
    (hsame : fs₁.atRest.openTruncated path = fs.atRest.openTruncated path) :
    ∃ t₁, (ExceptT.run (store.put ref source options)).Performs (Acts store.syncDirAfterBatch)
      (Session.start fs₁) t₁ (.error e) s := by
  obtain ⟨before, out, s₁, after, rfl, hfind, hput⟩ := Program.performs_bind.mp h
  obtain ⟨hvalue, hfiles, hnot⟩ := writableObjectPath_quiet path hfind
  cases out with
  | error e' =>
    obtain ⟨-, -, rfl⟩ := hput
    exact absurd hpub hnot
  | ok found =>
    obtain rfl : found = path := Except.ok.inj ((hvalue found rfl).symm.trans hpath)
    obtain ⟨before₁, hfind₁⟩ := writableObjectPath_replayed hfind fs₁
    have htarget : store.targetOf found = pure found := if_neg (by simp [hatomic])
    have hopen : store.openTarget found = Attempt.ask (.openTruncated found) :=
      if_neg (by simp [hatomic])
    have hat : (ExceptT.run (store.putAt found source options)).Performs
        (Acts store.syncDirAfterBatch) s₁ after (.error e) s := hput
    unfold PosixBlobStore.putAt at hat
    rw [htarget, pure_bind, hopen] at hat
    obtain ⟨r, s₂, rest, hacts, rfl, hrest⟩ := hat
    cases r with
    | error failure =>
      obtain ⟨-, -, rfl⟩ := hrest
      have hcalls : s.calls = s₁.calls ++ [⟨.openTruncated found, .error failure⟩] := hacts.2.2
      rw [hcalls, published_append_singleton] at hpub
      exact absurd (hpub.resolve_right id) hnot
    | ok file =>
      obtain ⟨⟨hfile, htruncated⟩, hseat, hcalls⟩ := hacts
      have hacts₁ : Acts store.syncDirAfterBatch { s₁ with files := fs₁.atRest }
          (.openTruncated found) (.ok file) s₂ := by
        refine ⟨⟨?_, ?_⟩, hseat, hcalls⟩
        · rw [hfile, hfiles]
          rfl
        · rw [htruncated, hfiles]
          exact hsame.symm
      have hat₁ : (ExceptT.run (store.putAt found source options)).Performs
          (Acts store.syncDirAfterBatch) { s₁ with files := fs₁.atRest }
          (⟨{ s₁ with files := fs₁.atRest }, .openTruncated found, .ok file, s₂⟩ :: rest)
          (.error e) s := by
        unfold PosixBlobStore.putAt
        rw [htarget, pure_bind, hopen]
        exact ⟨.ok file, s₂, rest, hacts₁, rfl, hrest⟩
      exact ⟨_, Program.performs_bind.mpr ⟨before₁, .ok found, _, _, rfl, hfind₁, hat₁⟩⟩

end InPlace

/-! ## Failed puts -/

section FailedPuts
variable {path : String} {store : PosixBlobStore} {ref : ObjectRef} {fs fs' : FileSystem}
variable {source : PosixBlobStore.ByteSource} {options : PutOptions} {calls : Trace posix}

/-- A put that finds the first files fails with these calls and leaves the others. -/
def PosixBlobStore.FailedPut (store : PosixBlobStore) (ref : ObjectRef)
    (source : PosixBlobStore.ByteSource) (options : PutOptions) (fs : FileSystem)
    (calls : Trace posix) (fs' : FileSystem) : Prop :=
  ∃ e t s, (ExceptT.run (store.put ref source options)).Performs (Acts store.syncDirAfterBatch)
    (Session.start fs) t (.error e) s ∧ s.calls = calls ∧ s.files = fs'

theorem not_published_nil : ¬Published path [] := by
  rintro ⟨o, ho, -⟩
  cases ho

/-- A put that has not published keeps what is seen of the object. -/
theorem look_of_failedPut (hpath : store.pathOf ref = .ok path)
    (h : store.FailedPut ref source options fs calls fs') (hnot : ¬Published path calls) :
    look fs path = look fs' path := by
  obtain ⟨e, t, s, hperforms, rfl, rfl⟩ := h
  obtain ⟨before, out, s₁, after, rfl, hfind, hput⟩ := Program.performs_bind.mp hperforms
  obtain ⟨hvalue, hfiles, hunpublished⟩ := writableObjectPath_quiet path hfind
  cases out with
  | error e' =>
    obtain ⟨-, -, rfl⟩ := hput
    rw [hfiles, look_atRest]
  | ok found =>
    obtain rfl : found = path := Except.ok.inj ((hvalue found rfl).symm.trans hpath)
    have hkept : Kept found (look fs found) Anything s₁ := .inr ⟨hfiles ▸ rfl, trivial⟩
    have hend := keeps_putAt source options s₁ after (.error e) s hkept hput
    exact (hend.resolve_left hnot).1.symm

/-- Without a path for the object a put fails before it touches any file. -/
theorem sameReads_of_no_path {e : Error} (hpath : store.pathOf ref = .error e)
    (h : store.FailedPut ref source options fs calls fs') : SameReads store ref fs fs' := by
  obtain ⟨e', t, s, hperforms, rfl, rfl⟩ := h
  obtain ⟨before, out, s₁, after, rfl, hfind, hput⟩ := Program.performs_bind.mp hperforms
  obtain ⟨hvalue, hfiles, -⟩ := writableObjectPath_quiet "" hfind
  cases out with
  | error e' =>
    obtain ⟨-, -, rfl⟩ := hput
    rw [hfiles]
    exact ⟨fun _ => rfl, rfl⟩
  | ok found =>
    rw [hvalue found rfl] at hpath
    cases hpath

/-- A put in place that published can lose what was there. -/
theorem loses_in_place (hatomic : store.atomicWrite = false) (hpath : store.pathOf ref = .ok path)
    (h : store.FailedPut ref source options fs calls fs') (hpub : Published path calls) :
    ∃ fs, store.FailedPut ref source options fs calls fs' ∧ ¬SameReads store ref fs fs' := by
  obtain ⟨e, t, s, hperforms, rfl, rfl⟩ := h
  have hreplayed : ∀ bytes, store.FailedPut ref source options (fs.withContent path bytes) s.calls
      s.files := by
    intro bytes
    obtain ⟨t₁, hperforms₁⟩ :=
      put_in_place_replayed hatomic hpath hperforms hpub (openTruncated_withContent bytes)
    exact ⟨e, t₁, s, hperforms₁, rfl, rfl⟩
  by_contra hall
  push Not at hall
  have hcontent : ∀ bytes, s.files.contentAt path = some bytes := by
    intro bytes
    rw [← (hall _ (hreplayed bytes)).contentAt hpath]
    exact contentAt_withContent
  have hdiffer := (hcontent []).symm.trans (hcontent [0])
  simp at hdiffer

/-- A put that renames and published can lose what was there. -/
theorem loses_renamed (hatomic : store.atomicWrite = true) (hpath : store.pathOf ref = .ok path)
    (h : store.FailedPut ref source options fs calls fs') (hpub : Published path calls) :
    ∃ fs fs', store.FailedPut ref source options fs calls fs' ∧ ¬SameReads store ref fs fs' := by
  have hfailed := h
  obtain ⟨e, t, s, hperforms, rfl, rfl⟩ := h
  have hblind : AllBlind path s :=
    allBlind_put hatomic hpath source options _ t (.error e) s (fun o ho => by cases ho) hperforms
  by_contra hall
  push Not at hall
  have hsame := (hall fs s.files hfailed).contentAt hpath
  cases hi : fs.names path with
  | none =>
    have hstanding : Standing path s :=
      Standing.performs (fun hpub => absurd hpub not_published_nil) hblind hperforms
    rw [FileSystem.contentAt_eq_none.mpr hi, eq_comm, FileSystem.contentAt_eq_none] at hsame
    have hnamed := hstanding hpub
    rw [hsame] at hnamed
    cases hnamed
  | some i =>
    -- the same calls where the object had one more byte
    have hidden : Hidden path i [] fs.atRest :=
      { made := fs.named hi
        closed := fun _ _ => Option.some_ne_none _ |>.symm
        named := fun name hname => ⟨fs.single hname hi, not_published_nil⟩ }
    have hretold : Retold path i (fs.data i ++ [0]) (Session.start fs)
        (Session.start (fs.setData i (fs.data i ++ [0]))) := ⟨rfl, hidden⟩
    obtain ⟨t₁, s₁, hperforms₁, rfl, hend⟩ := hretold.performs hblind hperforms
    have hsame₁ := (hall _ _ ⟨e, t₁, _, hperforms₁, rfl, rfl⟩).contentAt hpath
    have hlost : (s.files.setData i (fs.data i ++ [0])).contentAt path = s.files.contentAt path := by
      cases hj : s.files.names path with
      | none => simp [FileSystem.contentAt, hj]
      | some j =>
        have hne : j ≠ i := by
          rintro rfl
          exact (hend.named path hj).2 hpub
        simp [FileSystem.contentAt, FileSystem.setData, hj, hne]
    rw [hlost, ← hsame] at hsame₁
    simp [FileSystem.contentAt, FileSystem.setData, hi] at hsame₁

/-- With given replies of the system, a failing put leaves every previous object as it was exactly
if it fails before it publishes: before a renaming onto the object succeeds or, where it
writes in place, before it opens the object. -/
theorem failed_put_keeps_object_iff (h : store.FailedPut ref source options fs calls fs') :
    (∀ fs fs', store.FailedPut ref source options fs calls fs' → SameReads store ref fs fs') ↔
      ∀ path, store.pathOf ref = .ok path → ¬Published path calls := by
  constructor
  · intro hall path hpath hpub
    cases hatomic : store.atomicWrite with
    | true =>
      obtain ⟨fs₁, fs₁', hfailed, hlost⟩ := loses_renamed hatomic hpath h hpub
      exact hlost (hall fs₁ fs₁' hfailed)
    | false =>
      obtain ⟨fs₁, hfailed, hlost⟩ := loses_in_place hatomic hpath h hpub
      exact hlost (hall fs₁ fs' hfailed)
  · intro hnot fs fs' hfailed
    cases hpath : store.pathOf ref with
    | error e => exact sameReads_of_no_path hpath hfailed
    | ok path => exact sameReads_of_look hpath (look_of_failedPut hpath hfailed (hnot path hpath))

end FailedPuts

/-! ## A put in place whose stream breaks off -/

section Broken
variable {store : PosixBlobStore} {ref : ObjectRef} {path : String} {options : PutOptions}

theorem names_openTruncated (fs : FileSystem) (path : String) :
    ((fs.openTruncated path).names path).isSome := by
  cases hi : fs.names path with
  | none =>
    rw [FileSystem.openTruncated_of_none hi]
    simp [FileSystem.create]
  | some i =>
    rw [FileSystem.openTruncated_of_some hi]
    exact Option.isSome_iff_exists.mpr ⟨i, hi⟩

theorem contentAt_unlink {fs : FileSystem} : (fs.unlink path).contentAt path = none := by
  simp [FileSystem.contentAt, FileSystem.unlink]

/-- The object is gone, whatever it was. -/
theorem broken_stream_removes (hatomic : store.atomicWrite = false)
    (hpath : store.pathOf ref = .ok path) (e : Error) (fs : FileSystem) :
    MayEnd (Acts store.syncDirAfterBatch) (store.put ref ⟨[], some e⟩ options) (Session.start fs)
      (.error e) fun s => s.files.contentAt path = none := by
  have htarget : store.targetOf path = pure path := if_neg (by simp [hatomic])
  have hopen : store.openTarget path = Attempt.ask (.openTruncated path) :=
    if_neg (by simp [hatomic])
  have hquiet : ∀ s (op : Call) r, isQuiet op = true →
      Acts store.syncDirAfterBatch s op r (s.after op r s.files) := fun s op r hop =>
    (acts_of_isFileCall (isFileCall_of_isQuiet hop)).mpr (fileActs_quiet r hop)
  unfold PosixBlobStore.put
  apply mayEnd_writableObjectPath hpath hquiet
  rintro ⟨files, seat, calls⟩ hfiles
  cases hfiles
  unfold PosixBlobStore.putAt
  rw [htarget, pure_bind, hopen]
  refine mayEnd_ask (.openTruncated path) (.ok 0) _ (fileActs_after ⟨rfl, rfl⟩) ?_
  refine mayEnd_ask (.close 0) (.ok ()) _ (fileActs_after rfl) ?_
  refine mayEnd_ask (.unlink path) (.ok ()) _ (fileActs_after ⟨?_, rfl⟩) ?_
  · exact names_openTruncated _ _
  · exact ⟨[], _, ⟨rfl, rfl, rfl⟩, contentAt_unlink⟩

theorem failedPut_of_mayEnd {fs : FileSystem} {source : PosixBlobStore.ByteSource} {e : Error}
    (h : MayEnd (Acts store.syncDirAfterBatch) (store.put ref source options) (Session.start fs)
      (.error e) fun s => s.files.contentAt path = none) :
    ∃ calls fs', store.FailedPut ref source options fs calls fs' ∧ fs'.contentAt path = none := by
  obtain ⟨t, s, hperforms, hgone⟩ := h
  exact ⟨s.calls, s.files, ⟨e, t, s, hperforms, rfl, rfl⟩, hgone⟩

/-- A store that writes in place. -/
def inPlaceStore : PosixBlobStore where
  root := "/r"
  fsyncPolicy := .never
  atomicWrite := false
  pid := 1
  tmpToken := "t"
  sha256Hex := fun _ => "e3b0c44298fc1c149afbf4c8996fb92427ae41e4649b934ca495991b7852b855"
  dump := fun _ => []
  parseObject := fun _ => .ok (.object [])

/-- One object, of one byte. -/
def oneObject : FileSystem := (({} : FileSystem).create "/r/c/k").setData 0 [0]

theorem inPlaceStore_pathOf : inPlaceStore.pathOf ⟨"c", "k", none⟩ = .ok "/r/c/k" := by decide

/-- The object is there before the put and gone after it. -/
theorem inPlaceStore_loses : ∃ calls fs', inPlaceStore.FailedPut ⟨"c", "k", none⟩
    ⟨[], some (err .internal "read")⟩ {} oneObject calls fs' ∧
      ¬SameReads inPlaceStore ⟨"c", "k", none⟩ oneObject fs' := by
  have hremoves := @broken_stream_removes inPlaceStore ⟨"c", "k", none⟩ "/r/c/k" {} rfl
    inPlaceStore_pathOf (err .internal "read") oneObject
  obtain ⟨calls, fs', hfailed, hgone⟩ := failedPut_of_mayEnd hremoves
  refine ⟨calls, fs', hfailed, fun hsame => ?_⟩
  have hthere : oneObject.contentAt "/r/c/k" = some [0] := by decide
  have hcontent := hsame.contentAt inPlaceStore_pathOf
  rw [hgone, hthere] at hcontent
  cases hcontent

theorem failed_put_loses_object :
    ¬∀ (store : PosixBlobStore) (ref : ObjectRef) (source : PosixBlobStore.ByteSource)
      (options : PutOptions) (fs : FileSystem) (calls : Trace posix) (fs' : FileSystem),
      store.FailedPut ref source options fs calls fs' → SameReads store ref fs fs' := by
  intro hall
  obtain ⟨calls, fs', hfailed, hlost⟩ := inPlaceStore_loses
  exact hlost (hall _ _ _ _ _ _ _ hfailed)

/-- The put that loses its object published it. -/
theorem losing_put_published : ∃ calls fs', inPlaceStore.FailedPut ⟨"c", "k", none⟩
    ⟨[], some (err .internal "read")⟩ {} oneObject calls fs' ∧
      ∃ path, inPlaceStore.pathOf ⟨"c", "k", none⟩ = .ok path ∧ Published path calls := by
  obtain ⟨calls, fs', hfailed, hlost⟩ := inPlaceStore_loses
  refine ⟨calls, fs', hfailed, ?_⟩
  by_contra hnot
  have hkept := (failed_put_keeps_object_iff hfailed).mpr fun path hpath hpub =>
    hnot ⟨path, hpath, hpub⟩
  exact hlost (hkept _ _ hfailed)

end Broken

end FileService.Posix
