import FileService.Posix.FailedPut

/-!
# What get and stat return

A read of an object depends on the bytes of the object and of its sidecar and on
nothing else of the files.
-/
namespace FileService.Posix
open FileService.Common FileService.Domain FileService.Interaction

/-- The files as an operation finds them: it has none of them open. -/
def FileSystem.atRest (fs : FileSystem) : FileSystem :=
  { fs with
    handles := fun _ => none
    nextHandle := 0
    opened := by simp }

/-- An operation begins. -/
def Session.start (fs : FileSystem) : Session where
  files := fs.atRest

@[simp] theorem look_atRest (fs : FileSystem) (path : String) :
    look fs.atRest path = look fs path := rfl

/-- All that an operation may return when it finds these files. -/
def returns {α : Type} (x : Attempt α) (fs : FileSystem) : Set (Result α) :=
  {out | ∃ t s, (ExceptT.run x).Performs FileActs (Session.start fs) t out s}

/-! ## Paths of objects -/

section Paths
variable {store : PosixBlobStore} {ref : ObjectRef} {path : String}

/-- The path of an object. -/
def PosixBlobStore.pathOf (store : PosixBlobStore) (ref : ObjectRef) : Result String := do
  let dir ← store.containerDir ref.container
  lexicalJoin dir ref.key

theorem tryResult_uses {α : Type} {K : Call → Prop} (result : Result α) :
    (ExceptT.run (Attempt.tryResult result)).Uses K (· = result) := by
  cases result with
  | ok a => exact rfl
  | error e => exact rfl

/-- The rules of `Uses` where an error ends the action. -/
theorem uses_action_bind {α β : Type} {K : Call → Prop} {U : Result α → Prop}
    {V : Result β → Prop} {x : Attempt α} {f : α → Attempt β}
    (hx : (ExceptT.run x).Uses K U) (hf : ∀ a, U (.ok a) → (ExceptT.run (f a)).Uses K V)
    (herror : ∀ e, U (.error e) → V (.error e)) : (ExceptT.run (x >>= f)).Uses K V :=
  Program.uses_bind hx fun out hout => by
    cases out with
    | ok a => exact hf a hout
    | error e => exact herror e hout

theorem ask_uses {K : Call → Prop} {call : Call} (hcall : K call) :
    (ExceptT.run (Attempt.ask call)).Uses K fun out => ∃ r, out = .ok r :=
  ⟨hcall, fun r => ⟨r, rfl⟩⟩

variable {K : Call → Prop}

theorem safeJoin_uses (hquiet : ∀ call, isQuiet call = true → K call) {dir key : String} :
    (ExceptT.run (safeJoin dir key)).Uses K fun out => ∀ a, out = .ok a → lexicalJoin dir key = .ok a := by
  refine uses_action_bind (tryResult_uses _) (fun joined hjoined => ?_) fun e _ => by simp
  refine uses_action_bind (ask_uses (hquiet _ rfl)) (fun r _ => ?_) fun e _ => by simp
  refine uses_action_bind (tryResult_uses r) (fun _ _ => ?_) fun e _ => by simp
  rintro a ⟨⟩
  exact hjoined.symm

theorem objectPath_uses (hquiet : ∀ call, isQuiet call = true → K call) :
    (ExceptT.run (store.objectPath ref.container ref.key)).Uses K
      fun out => ∀ a, out = .ok a → store.pathOf ref = .ok a := by
  refine uses_action_bind (tryResult_uses _) (fun dir hdir => ?_) fun e _ => by simp
  refine uses_action_bind (ask_uses (hquiet _ rfl)) (fun found _ => ?_) fun e _ => by simp
  have hpath : store.pathOf ref = lexicalJoin dir ref.key := by
    rw [PosixBlobStore.pathOf, ← hdir]
    rfl
  cases found with
  | true => exact hpath ▸ safeJoin_uses hquiet
  | false => exact fun a ha => by cases ha

theorem writableObjectPath_uses (hquiet : ∀ call, isQuiet call = true → K call) :
    (ExceptT.run (store.writableObjectPath ref.container ref.key)).Uses K
      fun out => ∀ a, out = .ok a → store.pathOf ref = .ok a := by
  refine uses_action_bind (objectPath_uses hquiet) (fun first _ => ?_) fun e _ => by simp
  dsimp only
  split_ifs
  · refine uses_action_bind (ask_uses (hquiet _ rfl)) (fun r _ => ?_) fun e _ => by simp
    exact uses_action_bind (tryResult_uses r) (fun _ _ => objectPath_uses hquiet) fun e _ => by simp
  · exact objectPath_uses hquiet

end Paths

/-! ## Reads of an object -/

section Reads
variable {store : PosixBlobStore} {ref : ObjectRef} {path : String}
variable {fs fs₁ fs' : FileSystem} {op : Call} {r : op.Reply}

/-- The calls that reading an object takes. -/
def ReadsObject (path : String) : Call → Prop
  | .openRead target => target = path
  | .stat target => target = path
  | .readFile target => target = sidecarOf path
  | .fstat _ => True
  | .pread .. => True
  | .close _ => True
  | call => isQuiet call = true

theorem readsObject_of_isQuiet {call : Call} (h : isQuiet call = true) : ReadsObject path call := by
  cases call <;> first | exact h | cases h

/-- The calls that looking at an object takes. -/
def LooksAt (path : String) : Call → Prop
  | .stat target => target = path
  | .readFile target => target = sidecarOf path
  | call => isQuiet call = true

theorem looksAt_of_isQuiet {call : Call} (h : isQuiet call = true) : LooksAt path call := by
  cases call <;> first | exact h | cases h

theorem readsObject_of_looksAt {call : Call} (h : LooksAt path call) : ReadsObject path call := by
  cases call <;> first | exact h | cases h

/-- The object and the open files have the same bytes. -/
structure Alike (path : String) (fs fs₁ : FileSystem) : Prop where
  look : look fs path = look fs₁ path
  nextHandle : fs.nextHandle = fs₁.nextHandle
  opened : ∀ h, (fs.fileOf h).map fs.data = (fs₁.fileOf h).map fs₁.data

theorem Alike.atRest (h : Posix.look fs path = Posix.look fs₁ path) :
    Alike path fs.atRest fs₁.atRest :=
  ⟨h, rfl, fun _ => rfl⟩

theorem Alike.object (h : Alike path fs fs₁) : fs.contentAt path = fs₁.contentAt path :=
  congrArg Prod.fst h.look

theorem Alike.sidecar (h : Alike path fs fs₁) :
    fs.contentAt (sidecarOf path) = fs₁.contentAt (sidecarOf path) :=
  congrArg Prod.snd h.look

theorem fileOf_reopen {i : Nat} {hi : i < fs.next} {h : Handle} :
    (fs.reopen i hi).fileOf h = if h = fs.nextHandle then some i else fs.fileOf h := by
  by_cases hnew : h = fs.nextHandle <;> simp [FileSystem.fileOf, FileSystem.reopen, hnew]

theorem fileOf_close {h h' : Handle} :
    (fs.close h).fileOf h' = if h' = h then none else fs.fileOf h' := by
  by_cases hsame : h' = h <;> simp [FileSystem.fileOf, FileSystem.close, hsame]

theorem Alike.reopen {i i₁ : Nat} (h : Alike path fs fs₁) (hi : fs.names path = some i)
    (hi₁ : fs₁.names path = some i₁) :
    Alike path (fs.reopen i (fs.named hi)) (fs₁.reopen i₁ (fs₁.named hi₁)) where
  look := h.look
  nextHandle := congrArg Nat.succ h.nextHandle
  opened := by
    intro file
    rw [fileOf_reopen, fileOf_reopen, ← h.nextHandle]
    split_ifs
    · have hdata := h.object
      rw [FileSystem.contentAt_eq_some hi, FileSystem.contentAt_eq_some hi₁] at hdata
      exact hdata
    · exact h.opened file

theorem Alike.close (h : Alike path fs fs₁) (file : Handle) :
    Alike path (fs.close file) (fs₁.close file) where
  look := h.look
  nextHandle := h.nextHandle
  opened := by
    intro other
    rw [fileOf_close, fileOf_close]
    split_ifs
    · rfl
    · exact h.opened other

/-- The files that are alike give the same reply. -/
theorem Alike.does (h : Alike path fs fs₁) (hop : ReadsObject path op) (hdoes : fs.Does op r fs') :
    ∃ fs₁', fs₁.Does op r fs₁' ∧ Alike path fs' fs₁' := by
  cases op with
  | openRead target =>
    subst hop
    cases r with
    | error failure => exact ⟨fs₁, rfl, hdoes ▸ h⟩
    | ok file =>
      obtain ⟨rfl, i, hi, rfl⟩ := hdoes
      have hfound : fs₁.contentAt target = some (fs.data i) :=
        h.object ▸ FileSystem.contentAt_eq_some hi
      obtain ⟨i₁, hi₁, -⟩ := Option.map_eq_some_iff.mp hfound
      exact ⟨_, ⟨h.nextHandle, i₁, hi₁, rfl⟩, h.reopen hi hi₁⟩
  | stat target =>
    subst hop
    cases r with
    | error failure => exact ⟨fs₁, rfl, hdoes ▸ h⟩
    | ok found =>
      obtain ⟨hsize, rfl⟩ := hdoes
      exact ⟨fs₁, ⟨h.object ▸ hsize, rfl⟩, h⟩
  | readFile target =>
    subst hop
    cases r with
    | error failure => exact ⟨fs₁, rfl, hdoes ▸ h⟩
    | ok bytes =>
      obtain ⟨hbytes, rfl⟩ := hdoes
      exact ⟨fs₁, ⟨h.sidecar ▸ hbytes, rfl⟩, h⟩
  | fstat file =>
    cases r with
    | error failure => exact ⟨fs₁, rfl, hdoes ▸ h⟩
    | ok size =>
      obtain ⟨hsize, rfl⟩ := hdoes
      have hsame := congrArg (Option.map List.length) (h.opened file)
      simp only [Option.map_map] at hsame
      exact ⟨fs₁, ⟨hsame.symm.trans hsize, rfl⟩, h⟩
  | pread file offset count =>
    cases r with
    | error failure => exact ⟨fs₁, rfl, hdoes ▸ h⟩
    | ok bytes =>
      obtain ⟨hbytes, rfl⟩ := hdoes
      have hsame := congrArg (Option.map fun data => (data.drop offset).take count) (h.opened file)
      simp only [Option.map_map] at hsame
      exact ⟨fs₁, ⟨hsame.symm.trans hbytes, rfl⟩, h⟩
  | close file => exact ⟨_, rfl, hdoes ▸ h.close file⟩
  | _ => exact ⟨fs₁, (does_iff_of_isQuiet hop).mpr rfl, does_of_isQuiet hop hdoes ▸ h⟩

/-- What is seen of the object decides what reads of it may return. -/
theorem returns_eq_of_look {α : Type} {x : Attempt α} {U : Result α → Prop}
    (hx : (ExceptT.run x).Uses (ReadsObject path) U) (h : look fs path = look fs₁ path) :
    returns x fs = returns x fs₁ := by
  have hsubset : ∀ {fs fs₁ : FileSystem}, look fs path = look fs₁ path →
      returns x fs ⊆ returns x fs₁ := by
    rintro fs fs₁ hlook out ⟨t, s, hperforms⟩
    have halike : Alike path (Session.start fs).files (Session.start fs₁).files :=
      Alike.atRest hlook
    have hstep : ∀ call ∈ t, ∀ s₁, FileActs call.before call.op call.reply call.after →
        Alike path call.before.files s₁.files →
          ∃ s₁', FileActs s₁ call.op call.reply s₁' ∧ Alike path call.after.files s₁'.files := by
      intro call hcall s₁ hacts hbefore
      obtain ⟨files, hdoes, hnext⟩ := hbefore.does (hperforms.op_of_uses hx call hcall) hacts.1
      exact ⟨⟨files, s₁.seat, s₁.calls ++ [⟨call.op, call.reply⟩]⟩, ⟨hdoes, rfl, rfl⟩, hnext⟩
    obtain ⟨t₁, s₁, hperforms₁, -⟩ :=
      hperforms.simulate (T := fun s s₁ => Alike path s.files s₁.files) hstep halike
    exact ⟨t₁, s₁, hperforms₁⟩
  exact Set.Subset.antisymm (hsubset h) (hsubset h.symm)

theorem get_uses (range : ByteRange) (hpath : store.pathOf ref = .ok path) :
    (ExceptT.run (store.get ref range)).Uses (ReadsObject path) fun _ => True := by
  have hquiet : ∀ call, isQuiet call = true → ReadsObject path call := fun _ =>
    readsObject_of_isQuiet
  have hclose : ∀ {α : Type} (file : Handle) (e : Error),
      (ExceptT.run (Attempt.tell (.close file) >>= fun _ => throw e : Attempt α)).Uses
        (ReadsObject path) fun _ => True := fun _ _ => ⟨trivial, fun _ => trivial⟩
  refine uses_action_bind (objectPath_uses hquiet) (fun found hfound => ?_) fun _ _ => trivial
  obtain rfl : found = path := by
    have hsame := (hfound found rfl).symm.trans hpath
    exact Except.ok.inj hsame
  refine uses_action_bind (ask_uses (K := ReadsObject found) rfl) (fun r _ => ?_) fun _ _ => trivial
  cases r with
  | error failure =>
    dsimp only
    split_ifs <;> exact trivial
  | ok file =>
    refine uses_action_bind (ask_uses trivial) (fun r _ => ?_) fun _ _ => trivial
    cases r with
    | error failure => exact hclose file _
    | ok size =>
      dsimp only
      cases PosixBlobStore.rangeOf range size with
      | error e => exact hclose file e
      | ok part =>
        refine uses_action_bind (ask_uses trivial) (fun r _ => ?_) fun _ _ => trivial
        cases r with
        | error failure => exact hclose file _
        | ok data => exact ⟨trivial, fun _ => trivial⟩

theorem stat_looks (hpath : store.pathOf ref = .ok path) :
    (ExceptT.run (store.stat ref)).Uses (LooksAt path) fun _ => True := by
  have hquiet : ∀ call, isQuiet call = true → LooksAt path call := fun _ =>
    looksAt_of_isQuiet
  unfold PosixBlobStore.stat
  split
  · exact trivial
  · next dir hdir =>
    refine uses_action_bind (ask_uses (hquiet _ rfl)) (fun found _ => ?_) fun _ _ => trivial
    cases found with
    | false => exact trivial
    | true =>
      refine uses_action_bind (safeJoin_uses hquiet) (fun joined hjoined => ?_) fun _ _ => trivial
      obtain rfl : joined = path := by
        have hsame := hjoined joined rfl
        rw [PosixBlobStore.pathOf, hdir] at hpath
        exact Except.ok.inj (hsame.symm.trans hpath)
      refine uses_action_bind (ask_uses (K := LooksAt joined) rfl) (fun r _ => ?_)
        fun _ _ => trivial
      cases r with
      | error failure => exact trivial
      | ok found =>
        have hread : (ExceptT.run (store.readSidecar joined)).Uses (LooksAt joined)
            fun _ => True := by
          refine uses_action_bind (ask_uses (K := LooksAt joined) rfl) (fun r _ => ?_)
            fun _ _ => trivial
          refine uses_action_bind (tryResult_uses r) (fun text _ => ?_) fun _ _ => trivial
          exact uses_action_bind (tryResult_uses _) (fun _ _ => trivial) fun _ _ => trivial
        have hresult : (ExceptT.run (Attempt.result (store.readSidecar joined))).Uses
            (LooksAt joined) fun _ => True := Program.uses_bind hread fun _ _ => trivial
        refine uses_action_bind hresult (fun sidecar _ => ?_) fun _ _ => trivial
        cases sidecar with
        | ok st => exact trivial
        | error e => exact trivial

theorem stat_uses (hpath : store.pathOf ref = .ok path) :
    (ExceptT.run (store.stat ref)).Uses (ReadsObject path) fun _ => True :=
  Program.uses_mono (fun _ => readsObject_of_looksAt) (stat_looks hpath)

end Reads

/-! ## The same reads -/

section SameReads
variable {store : PosixBlobStore} {ref : ObjectRef} {path : String} {fs fs' : FileSystem}

/-- A later get and stat return what they returned before. -/
def SameReads (store : PosixBlobStore) (ref : ObjectRef) (fs fs' : FileSystem) : Prop :=
  (∀ range, returns (store.get ref range) fs = returns (store.get ref range) fs') ∧
    returns (store.stat ref) fs = returns (store.stat ref) fs'

theorem sameReads_of_look (hpath : store.pathOf ref = .ok path) (h : look fs path = look fs' path) :
    SameReads store ref fs fs' :=
  ⟨fun range => returns_eq_of_look (get_uses range hpath) h, returns_eq_of_look (stat_uses hpath) h⟩

/-- The operation may end from here with this outcome, where `Q` holds. -/
def MayEnd {α : Type} (exec : Effects posix Session) (x : Attempt α) (s : Session)
    (out : Result α) (Q : Session → Prop) : Prop :=
  ∃ t s', (ExceptT.run x).Performs exec s t out s' ∧ Q s'

theorem mayEnd_ask {α : Type} {exec : Effects posix Session} {s : Session} {out : Result α}
    {Q : Session → Prop} (op : Call) {f : (r : op.Reply) → Attempt α} (r : op.Reply) (s₁ : Session)
    (hexec : exec s op r s₁) (h : MayEnd exec (f r) s₁ out Q) :
    MayEnd exec (Attempt.ask op >>= f) s out Q := by
  obtain ⟨t, s', hperforms, hQ⟩ := h
  exact ⟨⟨s, op, r, s₁⟩ :: t, s', ⟨r, s₁, t, hexec, rfl, hperforms⟩, hQ⟩

/-- The call on files leaves these. -/
def Session.after (s : Session) (op : Call) (r : op.Reply) (files : FileSystem) : Session :=
  ⟨files, s.seat, s.calls ++ [⟨op, r⟩]⟩

theorem fileActs_after {s : Session} (hdoes : s.files.Does op r fs') :
    FileActs s op r (s.after op r fs') :=
  ⟨hdoes, rfl, rfl⟩

theorem fileActs_quiet {s : Session} {op : Call} (r : op.Reply) (hop : isQuiet op = true) :
    FileActs s op r (s.after op r s.files) :=
  fileActs_after ((does_iff_of_isQuiet hop).mpr rfl)

theorem dir_of_pathOf (hpath : store.pathOf ref = .ok path) :
    ∃ dir, store.containerDir ref.container = .ok dir ∧ lexicalJoin dir ref.key = .ok path := by
  rw [PosixBlobStore.pathOf] at hpath
  cases hdir : store.containerDir ref.container with
  | error e =>
    rw [hdir] at hpath
    cases hpath
  | ok dir =>
    rw [hdir] at hpath
    exact ⟨dir, rfl, hpath⟩

section Ways
variable {exec : Effects posix Session} {α : Type} {f : String → Attempt α} {out : Result α}
variable {Q : Session → Prop}

/-- The path of an object may be found. -/
theorem mayEnd_objectPath (hpath : store.pathOf ref = .ok path)
    (hexec : ∀ s (op : Call) r, isQuiet op = true → exec s op r (s.after op r s.files)) (s : Session)
    (hf : ∀ s₁ : Session, s₁.files = s.files → MayEnd exec (f path) s₁ out Q) :
    MayEnd exec (store.objectPath ref.container ref.key >>= f) s out Q := by
  obtain ⟨dir, hdir, hjoin⟩ := dir_of_pathOf hpath
  unfold PosixBlobStore.objectPath safeJoin
  simp only [hdir, hjoin, Attempt.tryResult, pure_bind, bind_assoc]
  refine mayEnd_ask (.fileExists dir) true _ (hexec _ _ _ rfl) ?_
  simp only [if_true, bind_assoc]
  refine mayEnd_ask (.verifyResolvedWithinRoot dir path) (.ok ()) _ (hexec _ _ _ rfl) ?_
  exact hf _ rfl

theorem mayEnd_writableObjectPath (hpath : store.pathOf ref = .ok path)
    (hexec : ∀ s (op : Call) r, isQuiet op = true → exec s op r (s.after op r s.files)) (s : Session)
    (hf : ∀ s₁ : Session, s₁.files = s.files → MayEnd exec (f path) s₁ out Q) :
    MayEnd exec (store.writableObjectPath ref.container ref.key >>= f) s out Q := by
  unfold PosixBlobStore.writableObjectPath
  rw [bind_assoc]
  apply mayEnd_objectPath hpath hexec
  intro s₁ hs₁
  dsimp only
  split_ifs
  · rw [bind_assoc]
    refine mayEnd_ask (.ensureDir _ _) (.ok ()) _ (hexec _ _ _ rfl) ?_
    exact mayEnd_objectPath hpath hexec _ fun s₂ hs₂ => hf s₂ (hs₂.trans hs₁)
  · exact mayEnd_objectPath hpath hexec _ fun s₂ hs₂ => hf s₂ (hs₂.trans hs₁)

end Ways

/-- An object that is there can be read. -/
theorem get_of_contentAt {bytes : Bytes} (hpath : store.pathOf ref = .ok path)
    (h : fs.contentAt path = some bytes) : .ok bytes ∈ returns (store.get ref {}) fs := by
  obtain ⟨i, hi, rfl⟩ := Option.map_eq_some_iff.mp h
  have hget : MayEnd FileActs (store.get ref {}) (Session.start fs) (.ok (fs.data i))
      fun _ => True := by
    unfold PosixBlobStore.get
    apply mayEnd_objectPath hpath fun _ _ r => fileActs_quiet r
    rintro ⟨files, seat, calls⟩ hfiles
    cases hfiles
    refine mayEnd_ask (.openRead path) (.ok 0) _ (fileActs_after ⟨rfl, i, hi, rfl⟩) ?_
    refine mayEnd_ask (.fstat 0) (.ok (fs.data i).length) _ (fileActs_after ⟨rfl, rfl⟩) ?_
    refine mayEnd_ask (.pread 0 0 (fs.data i).length) (.ok (fs.data i)) _
      (fileActs_after ⟨congrArg some List.take_length, rfl⟩) ?_
    refine mayEnd_ask (.close 0) (.ok ()) _ (fileActs_after rfl) ?_
    exact ⟨[], _, ⟨rfl, rfl, rfl⟩, trivial⟩
  obtain ⟨t, s, hperforms, -⟩ := hget
  exact ⟨t, s, hperforms⟩

theorem ensures_close_throw {α : Type} {P : Session → Prop} {Q : α → Session → Prop}
    (file : Handle) (e : Error) :
    Interaction.Action.Ensures FileActs P
      (Attempt.tell (.close file) >>= fun _ => throw e : Attempt α) Q fun _ _ => True := by
  rintro s t out s' - ⟨_, _, _, _, _, rfl, rfl, rfl⟩
  trivial

/-- The open file is the object. -/
def Reading (content : Option Bytes) (file : Handle) (s : Session) : Prop :=
  (s.files.fileOf file).map s.files.data = content

theorem ensures_openRead {found : String} :
    Interaction.Action.Ensures FileActs (fun s => found = path ∧ s.files = fs.atRest)
      (Attempt.ask (.openRead found)) (fun r s => ∀ h, r = .ok h → Reading (fs.contentAt path) h s)
      fun _ _ => True := by
  refine Interaction.Action.ensures_call ?_
  rintro s r s' ⟨rfl, hs⟩ ⟨hdoes, -, -⟩ file rfl
  rw [hs] at hdoes
  obtain ⟨rfl, i, hi, hfiles⟩ := hdoes
  have hname : fs.names found = some i := hi
  rw [Reading, hfiles, fileOf_reopen, if_pos rfl, FileSystem.contentAt_eq_some hname]
  rfl

theorem ensures_fstat {content : Option Bytes} {file : Handle} :
    Interaction.Action.Ensures FileActs (Reading content file) (Attempt.ask (.fstat file))
      (fun r s => Reading content file s ∧ ∀ size, r = .ok size →
        content.map List.length = some size) fun _ _ => True := by
  refine Interaction.Action.ensures_call ?_
  rintro s r s' rfl ⟨hdoes, -, -⟩
  cases r with
  | error failure => exact ⟨by rw [Reading, hdoes], by simp⟩
  | ok size =>
    obtain ⟨hsize, hfiles⟩ := hdoes
    refine ⟨by rw [Reading, hfiles], ?_⟩
    rintro _ ⟨⟩
    rw [Option.map_map]
    exact hsize

theorem ensures_pread {content : Option Bytes} (file : Handle) {size : Nat}
    (hsize : content.map List.length = some size) :
    Interaction.Action.Ensures FileActs (Reading content file) (Attempt.ask (.pread file 0 size))
      (fun r _ => ∀ data, r = .ok data → content = some data) fun _ _ => True := by
  refine Interaction.Action.ensures_call ?_
  rintro s r s' hbytes ⟨hdoes, -, -⟩ data rfl
  obtain ⟨whole, rfl, rfl⟩ := Option.map_eq_some_iff.mp hsize
  have hdata := congrArg (Option.map (List.take whole.length)) hbytes
  rw [Option.map_map, Option.map_some, List.take_length] at hdata
  exact hdata.symm.trans hdoes.1

/-- What a read of the whole object returns is there. -/
theorem contentAt_of_get {bytes : Bytes} (hpath : store.pathOf ref = .ok path)
    (h : .ok bytes ∈ returns (store.get ref {}) fs) : fs.contentAt path = some bytes := by
  have hquiet : ∀ (s : Session) op r s', isQuiet op = true → s.files = fs.atRest →
      FileActs s op r s' → s'.files = fs.atRest :=
    fun s op r s' hop hs hacts => (does_of_isQuiet hop hacts.1).trans hs
  have huses := @objectPath_uses store ref (isQuiet · = true) fun _ hcall => hcall
  have hfound : Interaction.Action.Ensures FileActs (fun s => s.files = fs.atRest)
      (store.objectPath ref.container ref.key) (fun found s => found = path ∧ s.files = fs.atRest)
      fun _ _ => True :=
    (Interaction.Action.ensures_of_uses huses hquiet).mono (fun _ hs => hs)
      (fun found s hs => ⟨Except.ok.inj ((hs.1 found rfl).symm.trans hpath), hs.2⟩)
      fun _ _ _ => trivial
  have hget : Interaction.Action.Ensures FileActs (fun s => s.files = fs.atRest)
      (store.get ref {}) (fun data _ => fs.contentAt path = some data) fun _ _ => True := by
    refine hfound.bind fun found => ensures_openRead.bind fun r => ?_
    cases r with
    | error failure =>
      dsimp only
      split_ifs <;> exact Interaction.Action.ensures_throw fun _ _ => trivial
    | ok file =>
      refine (ensures_fstat.mono (fun s hs => hs file rfl) (fun _ _ hs => hs)
        fun _ _ hs => hs).bind fun r => ?_
      cases r with
      | error failure => exact ensures_close_throw file _
      | ok size =>
        refine .of_fact (fun s hs => hs.2 size rfl) fun hsize => ?_
        refine ((ensures_pread file hsize).mono (fun s (hs : _ ∧ _) => hs.1) (fun _ _ hs => hs)
          fun _ _ hs => hs).bind fun r => ?_
        cases r with
        | error failure => exact ensures_close_throw file _
        | ok data =>
          rintro s t out s' hs ⟨_, _, _, _, _, rfl, rfl, rfl⟩
          exact hs data rfl
  obtain ⟨t, s, hperforms⟩ := h
  exact hget _ t _ s rfl hperforms

theorem SameReads.contentAt (hpath : store.pathOf ref = .ok path) (h : SameReads store ref fs fs') :
    fs.contentAt path = fs'.contentAt path := by
  apply Option.ext
  intro bytes
  constructor
  · intro hbytes
    exact contentAt_of_get hpath (h.1 {} ▸ get_of_contentAt hpath hbytes)
  · intro hbytes
    exact contentAt_of_get hpath (h.1 {} ▸ get_of_contentAt hpath hbytes)

end SameReads

end FileService.Posix
