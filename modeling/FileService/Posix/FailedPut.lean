import FileService.Posix.FileSystem

/-!
# A failed put

What a put that fails leaves of the object and its sidecar. As long as it has
not published the object they are what they were.
-/
namespace FileService.Posix
open FileService.Common FileService.Domain FileService.Interaction

/-! ## What is seen of an object -/

section Seen

/-- The bytes of an object and of its sidecar. -/
def look (fs : FileSystem) (path : String) : Option Bytes × Option Bytes :=
  (fs.contentAt path, fs.contentAt (sidecarOf path))

/-- The call puts another file in the place of the object, or empties it. -/
def publishes (path : String) : Occurrence posix → Prop
  | ⟨.openTruncated target, .ok _⟩ => target = path
  | ⟨.rename _ target, .ok _⟩ => target = path
  | _ => False

/-- The object has been published. -/
def Published (path : String) (calls : Trace posix) : Prop := ∃ o ∈ calls, publishes path o

end Seen

section Frame
variable {syncDir : Bool} {path : String} {seen : Option Bytes × Option Bytes}
variable {α β : Type} {R R' : Session → Prop} {Q : α → Session → Prop} {Q' : β → Session → Prop}

/-- The object has been published, or it and its sidecar are what they were. -/
def Kept (path : String) (seen : Option Bytes × Option Bytes) (R : Session → Prop)
    (s : Session) : Prop :=
  Published path s.calls ∨ look s.files path = seen ∧ R s

theorem Kept.imp {s : Session} (h : Kept path seen R s) (hR : R s → R' s) : Kept path seen R' s :=
  h.imp_right fun hkept => ⟨hkept.1, hR hkept.2⟩

theorem published_append {calls more : Trace posix} (h : Published path calls) :
    Published path (calls ++ more) := by
  obtain ⟨o, ho, hpub⟩ := h
  exact ⟨o, List.mem_append_left _ ho, hpub⟩

theorem published_fileActs {s s' : Session} {op : Call} {r : op.Reply} (h : FileActs s op r s')
    (hs : Published path s.calls) : Published path s'.calls := by
  rw [h.2.2]
  exact published_append hs

theorem published_performs {exec : Effects posix Session} {p : Program posix α} {s s' : Session}
    {a : α} {t : List (Performed posix Session)} (h : p.Performs exec s t a s')
    (hexec : ∀ {s op r s'}, exec s op r s' → Published path s.calls → Published path s'.calls)
    (hs : Published path s.calls) : Published path s'.calls := by
  induction p generalizing s t with
  | ret a => exact h.2.2 ▸ hs
  | call op next ih =>
    obtain ⟨r, s₁, rest, hcall, -, hrest⟩ := h
    exact ih r hrest (hexec hcall hs)

theorem published_acts {s s' : Session} {op : Call} {r : op.Reply} (h : Acts syncDir s op r s')
    (hs : Published path s.calls) : Published path s'.calls := by
  cases hop : isFileCall op with
  | true => exact published_fileActs ((acts_of_isFileCall hop).mp h) hs
  | false =>
    cases op with
    | enterBatch renames => exact h.1 ▸ hs
    | awaitFull batch => exact h.1 ▸ hs
    | awaitDone batch =>
      obtain ⟨entries, t, -, hcommit⟩ := h
      exact published_performs hcommit published_fileActs hs
    | _ => cases hop

/-- A part of the put keeps the object until it is published; `Q` holds where it returns. -/
def Keeps (syncDir : Bool) (path : String) (seen : Option Bytes × Option Bytes)
    (R : Session → Prop) (x : Attempt α) (Q : α → Session → Prop) : Prop :=
  Interaction.Action.Ensures (Acts syncDir) (Kept path seen R) x (fun a => Kept path seen (Q a))
    fun _ => Kept path seen fun _ => True

theorem keeps_pure {a : α} (h : ∀ s, R s → Q a s) : Keeps syncDir path seen R (pure a) Q :=
  Interaction.Action.ensures_pure fun s hs => hs.imp (h s)

theorem keeps_throw {e : Error} : Keeps syncDir path seen R (throw e : Attempt α) Q :=
  Interaction.Action.ensures_throw fun _ hs => hs.imp fun _ => trivial

theorem Keeps.bind {x : Attempt α} {f : α → Attempt β} (hx : Keeps syncDir path seen R x Q)
    (hf : ∀ a, Keeps syncDir path seen (Q a) (f a) Q') :
    Keeps syncDir path seen R (x >>= f) Q' :=
  Interaction.Action.Ensures.bind hx hf

theorem Keeps.mono {Q₂ : α → Session → Prop} {x : Attempt α} (hx : Keeps syncDir path seen R x Q)
    (hR : ∀ s, R' s → R s) (hQ : ∀ a s, Q a s → Q₂ a s) : Keeps syncDir path seen R' x Q₂ :=
  Interaction.Action.Ensures.mono hx (fun s hs => hs.imp (hR s)) (fun a s hs => hs.imp (hQ a s))
    fun _ _ hs => hs

/-- What a call on files may do to an object that has not been published. -/
def Spares (path : String) (seen : Option Bytes × Option Bytes) (R : Session → Prop) (op : Call)
    (Q : op.Reply → Session → Prop) : Prop :=
  ∀ s r s', look s.files path = seen → R s → s.files.Does op r s'.files → s'.seat = s.seat →
    publishes path ⟨op, r⟩ ∨ look s'.files path = seen ∧ Q r s'

theorem Spares.kept {op : Call} {Q : op.Reply → Session → Prop} (h : Spares path seen R op Q)
    {s s' : Session} {r : op.Reply} (hs : Kept path seen R s) (hacts : FileActs s op r s') :
    Kept path seen (Q r) s' := by
  rcases hs with hpub | ⟨hlook, hR⟩
  · exact .inl (published_fileActs hacts hpub)
  · obtain ⟨hdoes, hseat, hcalls⟩ := hacts
    refine (h s r s' hlook hR hdoes hseat).imp_left fun hpub => ?_
    exact ⟨_, hcalls ▸ List.mem_append_right _ (List.mem_singleton_self _), hpub⟩

/-- A call on files keeps the object or publishes it. -/
theorem keeps_ask {op : Call} {Q : op.Reply → Session → Prop} (hop : isFileCall op = true)
    (h : Spares path seen R op Q) : Keeps syncDir path seen R (Attempt.ask op) Q :=
  Interaction.Action.ensures_call fun _ _ _ hs hacts => h.kept hs ((acts_of_isFileCall hop).mp hacts)

/-- What the state says of the values may be used. -/
theorem keeps_of {P : Prop} {x : Attempt α} (hP : ∀ s, R s → P)
    (hx : P → Keeps syncDir path seen R x Q) : Keeps syncDir path seen R x Q := by
  by_cases h : P
  · exact hx h
  · intro s t out s' hs hperforms
    have hpub : Published path s'.calls :=
      published_performs hperforms published_acts (hs.resolve_right fun hkept => h (hP s hkept.2))
    cases out with
    | ok a => exact .inl hpub
    | error e => exact .inl hpub

/-- Once the object is published there is nothing left to keep. -/
theorem keeps_published {x : Attempt α} : Keeps syncDir path seen (fun _ => False) x Q :=
  keeps_of (fun _ hs => hs) False.elim

/-- Calls that leave the files alone. -/
theorem keeps_quiet {x : Attempt α} {U : Result α → Prop}
    (hx : (ExceptT.run x).Uses (isQuiet · = true) U)
    (hR : ∀ s s', s'.files = s.files → s'.seat = s.seat → R s → R s') :
    Keeps syncDir path seen R x fun a s => U (.ok a) ∧ R s := by
  refine Interaction.Action.Ensures.mono (Interaction.Action.ensures_of_uses hx ?_)
    (fun _ hs => hs) (fun a s h => Kept.imp h.2 fun hs => ⟨h.1, hs⟩)
    fun e s hs => Kept.imp hs fun _ => trivial
  intro s op r s' hop hs hacts
  rcases hs with hpub | ⟨hlook, hRs⟩
  · exact .inl (published_acts hacts hpub)
  · obtain ⟨hfiles, hseat, -⟩ := fileActs_of_isQuiet hop hacts
    exact .inr ⟨hfiles ▸ hlook, hR s s' hfiles hseat hRs⟩

end Frame

/-! ## The parts of a put -/

section Parts
variable {syncDir : Bool} {path tmp : String} {seen : Option Bytes × Option Bytes}
variable {store : PosixBlobStore} {α : Type} {file : Handle}

/-- A name of neither the object nor its sidecar. -/
def Aside (path name : String) : Prop := name ≠ path ∧ name ≠ sidecarOf path

/-- The open file belongs to neither the object nor its sidecar. -/
def Writing (path : String) (file : Handle) (s : Session) : Prop :=
  s.files.Elsewhere file path ∧ s.files.Elsewhere file (sidecarOf path)

abbrev Anything : Session → Prop := fun _ => True

theorem look_eq_of_names {fs fs' : FileSystem}
    (h : fs'.contentAt path = fs.contentAt path)
    (h' : fs'.contentAt (sidecarOf path) = fs.contentAt (sidecarOf path)) :
    look fs' path = look fs path := by
  rw [look, look, h, h']

theorem keeps_ask_quiet {call : Call} {R : Session → Prop} (hcall : isQuiet call = true) :
    Keeps syncDir path seen R (Attempt.ask call) fun _ => Anything :=
  have hquiet : (ExceptT.run (Attempt.ask call)).Uses (isQuiet · = true) fun _ => True :=
    ⟨hcall, fun _ => trivial⟩
  (keeps_quiet hquiet fun _ _ _ _ _ => trivial).mono (fun _ _ => trivial) fun _ _ _ => trivial

theorem keeps_close {R : Session → Prop} :
    Keeps syncDir path seen R (Attempt.ask (.close file)) fun _ => Anything := by
  refine keeps_ask rfl fun s r s' hlook _ hdoes _ => .inr ⟨?_, trivial⟩
  rw [hdoes]
  exact hlook

theorem keeps_tell_close {R : Session → Prop} :
    Keeps syncDir path seen R (Attempt.tell (.close file)) fun _ => Anything :=
  keeps_close.bind fun _ => keeps_pure fun _ hs => hs

theorem spares_unlink (htmp : Aside path tmp) :
    Spares path seen Anything (.unlink tmp) fun _ => Anything := by
  intro s r s' hlook _ hdoes _
  refine .inr ⟨?_, trivial⟩
  rw [← hlook]
  cases r with
  | ok u =>
    rw [hdoes.2]
    exact look_eq_of_names (FileSystem.contentAt_unlink_of_ne htmp.1.symm)
      (FileSystem.contentAt_unlink_of_ne htmp.2.symm)
  | error failure => rw [hdoes.2]

theorem keeps_unlink (htmp : Aside path tmp) :
    Keeps syncDir path seen Anything (Attempt.tell (.unlink tmp)) fun _ => Anything :=
  Keeps.bind (keeps_ask rfl (spares_unlink htmp)) fun _ => keeps_pure fun _ _ => trivial

theorem keeps_openExclusive (htmp : Aside path tmp) :
    Keeps syncDir path seen Anything (Attempt.ask (.openExclusive tmp))
      fun r s => ∀ h, r = .ok h → Writing path h s := by
  refine keeps_ask rfl fun s r s' hlook _ hdoes _ => .inr ?_
  cases r with
  | ok h =>
    obtain ⟨-, rfl, hfiles⟩ := hdoes
    rw [hfiles]
    refine ⟨hlook ▸ look_eq_of_names (FileSystem.contentAt_create_of_ne htmp.1.symm)
      (FileSystem.contentAt_create_of_ne htmp.2.symm), ?_⟩
    rintro _ ⟨⟩
    unfold Writing
    rw [hfiles]
    exact ⟨FileSystem.elsewhere_create_of_ne htmp.1.symm,
      FileSystem.elsewhere_create_of_ne htmp.2.symm⟩
  | error failure => exact ⟨hdoes ▸ hlook, by simp⟩

theorem look_write {fs : FileSystem} {bytes : Bytes} (h : fs.Elsewhere file path)
    (h' : fs.Elsewhere file (sidecarOf path)) : look (fs.write file bytes) path = look fs path :=
  look_eq_of_names (FileSystem.contentAt_write h) (FileSystem.contentAt_write h')

theorem keeps_writeAll {bytes : Bytes} :
    Keeps syncDir path seen (Writing path file) (Attempt.ask (.writeAll file bytes))
      fun _ => Writing path file := by
  refine keeps_ask rfl fun s r s' hlook hwriting hdoes _ => .inr ?_
  have hwrote : ∃ bytes, s'.files = s.files.write file bytes := by
    cases r with
    | ok u => exact ⟨_, hdoes.2⟩
    | error failure =>
      obtain ⟨n, hn⟩ := hdoes
      exact ⟨_, hn⟩
  obtain ⟨bytes, hfiles⟩ := hwrote
  unfold Writing
  rw [hfiles]
  exact ⟨(look_write hwriting.1 hwriting.2).trans hlook, hwriting.1.write, hwriting.2.write⟩

theorem keeps_cleanup (htmp : Aside path tmp) {R : Session → Prop} :
    Keeps syncDir path seen R (PosixBlobStore.cleanup file tmp) fun _ => Anything :=
  keeps_tell_close.bind fun _ => keeps_unlink htmp

/-- Drop the file and fail. -/
theorem keeps_cleanup_throw (htmp : Aside path tmp) {R : Session → Prop} {e : Error}
    {Q : α → Session → Prop} :
    Keeps syncDir path seen R (PosixBlobStore.cleanup file tmp >>= fun _ => throw e) Q :=
  (keeps_cleanup htmp).bind fun _ => keeps_throw

theorem keeps_unlink_throw (htmp : Aside path tmp) {e : Error} {Q : α → Session → Prop} :
    Keeps syncDir path seen Anything (Attempt.tell (.unlink tmp) >>= fun _ => throw e) Q :=
  (keeps_unlink htmp).bind fun _ => keeps_throw

theorem keeps_receive (htmp : Aside path tmp) (failure : Option Error) (chunks : List Bytes)
    (received : Bytes) :
    Keeps syncDir path seen (Writing path file)
      (PosixBlobStore.receive file tmp failure chunks received) fun _ => Writing path file := by
  induction chunks generalizing received with
  | nil =>
    unfold PosixBlobStore.receive
    cases failure with
    | some e => exact keeps_cleanup_throw htmp
    | none => exact keeps_pure fun _ hs => hs
  | cons chunk chunks ih =>
    unfold PosixBlobStore.receive
    split_ifs
    · exact keeps_pure fun _ hs => hs
    · refine keeps_writeAll.bind fun r => ?_
      cases r with
      | error failure => exact keeps_cleanup_throw htmp
      | ok u => exact ih _

theorem keeps_closed (htmp : Aside path tmp) (data : Bytes) :
    Keeps syncDir path seen Anything (do
      match ← Attempt.ask (.close file) with
      | .error failure =>
        Attempt.tell (.unlink tmp)
        throw (errFromErrno "close 失败" failure)
      | .ok _ => return data) fun _ => Anything := by
  refine keeps_close.bind fun r => ?_
  cases r with
  | error failure => exact keeps_unlink_throw htmp
  | ok u => exact keeps_pure fun _ _ => trivial

theorem keeps_writeObject (htmp : Aside path tmp) (source : PosixBlobStore.ByteSource)
    (options : PutOptions) :
    Keeps syncDir path seen (Writing path file) (store.writeObject file tmp source options)
      fun _ => Anything := by
  refine (keeps_receive htmp source.failure source.chunks []).bind fun data => ?_
  cases store.checkReceived data options with
  | error e => exact keeps_cleanup_throw htmp
  | ok u =>
    dsimp only
    split_ifs
    · refine (keeps_ask_quiet rfl).bind fun r => ?_
      cases r with
      | error e => exact keeps_cleanup_throw htmp
      | ok u => exact keeps_closed htmp data
    · exact (keeps_closed htmp data).mono (fun _ _ => trivial) fun _ _ hs => hs

theorem keeps_writeTmpFile (htmp : Aside path tmp) (data : Bytes) :
    Keeps syncDir path seen Anything (PosixBlobStore.writeTmpFile tmp data) fun _ => Anything := by
  unfold PosixBlobStore.writeTmpFile
  refine (keeps_openExclusive htmp).bind fun r => ?_
  cases r with
  | error failure => exact keeps_throw
  | ok file =>
    have hopen : ∀ s, (∀ h, (Except.ok file : Sys Handle) = .ok h → Writing path h s) →
        Writing path file s := fun s hs => hs file rfl
    refine Keeps.mono (Keeps.bind keeps_writeAll fun r => ?_) hopen fun _ _ hs => hs
    cases r with
    | error failure =>
      refine keeps_tell_close.bind fun _ => ?_
      exact keeps_unlink_throw htmp
    | ok u =>
      refine keeps_close.bind fun r => ?_
      cases r with
      | error failure => exact keeps_unlink_throw htmp
      | ok u => exact keeps_pure fun _ _ => trivial

end Parts

/-! ## The commit of a batch -/

section Batch
variable {syncDir : Bool} {path tmp sidecarTmp : String} {seen : Option Bytes × Option Bytes}
variable {entries : List BatchEntry} {α : Type} {R : Session → Prop}

/-- The entry is that of the object, or it is about other files. -/
def EntrySpares (path : String) (entry : BatchEntry) : Prop :=
  (∃ tmp sidecarTmp, entry.renames = [⟨tmp, path⟩, ⟨sidecarTmp, sidecarOf path⟩] ∧
    Aside path tmp ∧ Aside path sidecarTmp) ∨
  ∀ rename ∈ entry.renames, Aside path rename.tmp ∧ Aside path rename.finalPath

/-- The renamings with which an object and its sidecar enter a batch. -/
abbrev objectRenames (path tmp sidecarTmp : String) : List PendingRename :=
  [⟨tmp, path⟩, ⟨sidecarTmp, sidecarOf path⟩]

theorem Session.InBatch.spares {s : Session} {index : Nat} (h : s.InBatch entries)
    (hseat : s.seat = some (index, objectRenames path tmp sidecarTmp))
    (htmp : Aside path tmp) (hsidecarTmp : Aside path sidecarTmp) :
    ∀ entry ∈ entries, EntrySpares path entry := by
  intro entry hentry
  obtain ⟨index', renames, hseat', hmine, hothers⟩ := h
  rw [hseat, Option.some.injEq, Prod.mk.injEq] at hseat'
  obtain ⟨rfl, rfl⟩ := hseat'
  obtain ⟨j, hj⟩ := List.mem_iff_getElem?.mp hentry
  by_cases hji : j = index
  · subst hji
    rw [hmine, Option.some.injEq] at hj
    exact .inl ⟨tmp, sidecarTmp, hj ▸ rfl, htmp, hsidecarTmp⟩
  · refine .inr fun rename hrename => ?_
    have hobject := hothers j entry hji hj ⟨tmp, path⟩ (by simp) rename hrename
    have hsidecar := hothers j entry hji hj ⟨sidecarTmp, sidecarOf path⟩ (by simp) rename hrename
    simp only [PendingRename.paths, List.mem_cons, List.not_mem_nil, or_false, forall_eq_or_imp,
      forall_eq, not_or] at hobject hsidecar
    exact ⟨⟨hobject.1.2, hsidecar.1.2⟩, ⟨hobject.2.2, hsidecar.2.2⟩⟩

theorem kept_perform {op : Call} {Q : op.Reply → Session → Prop} (h : Spares path seen R op Q) :
    Program.Ensures FileActs (Kept path seen R) (perform op) fun r => Kept path seen (Q r) :=
  Program.ensures_perform fun _ _ _ hs hacts => h.kept hs hacts

theorem kept_published {p : Program posix α} :
    Program.Ensures FileActs (Kept path seen fun _ => False) p
      fun _ => Kept path seen Anything := by
  intro s t a s' hs hperforms
  exact .inl (published_performs hperforms published_fileActs (hs.resolve_right fun hkept => hkept.2))

theorem kept_quiet {op : Call} (hop : isQuiet op = true) :
    Program.Ensures FileActs (Kept path seen Anything) (perform op)
      fun _ => Kept path seen Anything :=
  kept_perform fun _ _ _ hlook _ hdoes _ => .inr ⟨does_of_isQuiet hop hdoes ▸ hlook, trivial⟩

theorem kept_unlinkAll (tmps : List String) (htmps : ∀ tmp ∈ tmps, Aside path tmp) :
    Program.Ensures FileActs (Kept path seen Anything) (unlinkAll tmps)
      fun _ => Kept path seen Anything := by
  induction tmps with
  | nil => exact Program.ensures_pure fun _ hs => hs
  | cons tmp tmps ih =>
    change Program.Ensures FileActs (Kept path seen Anything)
      (discard (perform (.unlink tmp)) >>= fun _ => unlinkAll tmps) fun _ => Kept path seen Anything
    refine (kept_perform (spares_unlink (htmps tmp List.mem_cons_self))).discard.bind fun _ => ?_
    exact ih fun t ht => htmps t (List.mem_cons_of_mem _ ht)

/-- A renaming between other names. -/
theorem spares_rename {source target : String} (hsource : Aside path source)
    (htarget : Aside path target) :
    Spares path seen Anything (.rename source target) fun _ => Anything := by
  intro s r s' hlook _ hdoes _
  refine .inr ⟨?_, trivial⟩
  cases r with
  | ok u =>
    rw [hdoes.2, ← hlook]
    exact look_eq_of_names (FileSystem.contentAt_rename_of_ne hsource.1.symm htarget.1.symm)
      (FileSystem.contentAt_rename_of_ne hsource.2.symm htarget.2.symm)
  | error failure => exact hdoes ▸ hlook

/-- The renaming onto the object publishes it. -/
theorem spares_publish {source : String} :
    Spares path seen Anything (.rename source path) fun r _ => ∃ failure, r = .error failure := by
  intro s r s' hlook _ hdoes _
  cases r with
  | ok u => exact .inl rfl
  | error failure => exact .inr ⟨hdoes ▸ hlook, failure, rfl⟩

theorem kept_renameEach (tmps : List String) (htmps : ∀ tmp ∈ tmps, Aside path tmp)
    (renames : List PendingRename)
    (hrenames : ∀ rename ∈ renames, Aside path rename.tmp ∧ Aside path rename.finalPath) :
    Program.Ensures FileActs (Kept path seen Anything) (renameEach tmps renames)
      fun _ => Kept path seen Anything := by
  induction renames with
  | nil => exact Program.ensures_pure fun _ hs => hs
  | cons rename renames ih =>
    obtain ⟨hsource, htarget⟩ := hrenames rename List.mem_cons_self
    refine Program.Ensures.bind (kept_perform (spares_rename hsource htarget)) fun r => ?_
    cases r with
    | ok u => exact ih fun other hother => hrenames other (List.mem_cons_of_mem _ hother)
    | error failure =>
      exact (kept_unlinkAll tmps htmps).bind fun _ => Program.ensures_pure fun _ hs => hs

theorem EntrySpares.tmps {entry : BatchEntry} (h : EntrySpares path entry) :
    ∀ tmp ∈ entry.tmps, Aside path tmp := by
  intro name hname
  obtain ⟨rename, hrename, rfl⟩ := List.mem_map.mp hname
  rcases h with ⟨tmp, sidecarTmp, hrenames, htmp, hsidecarTmp⟩ | hothers
  · rw [hrenames] at hrename
    rcases List.mem_cons.mp hrename with rfl | hrename
    · exact htmp
    · rw [List.mem_singleton.mp hrename]
      exact hsidecarTmp
  · exact (hothers rename hrename).1

theorem kept_renameEntry {entry : BatchEntry} (h : EntrySpares path entry) :
    Program.Ensures FileActs (Kept path seen Anything) (renameEntry entry)
      fun _ => Kept path seen Anything := by
  have htmps := h.tmps
  unfold renameEntry
  rcases h with ⟨tmp, sidecarTmp, hrenames, htmp, hsidecarTmp⟩ | hothers
  · rw [hrenames]
    refine Program.Ensures.bind (kept_perform spares_publish) fun r => ?_
    cases r with
    | ok u =>
      refine Program.Ensures.mono kept_published (fun s hs => Kept.imp hs ?_) fun _ _ hs => hs
      rintro ⟨failure, hfailed⟩
      cases hfailed
    | error failure =>
      have hdropped : Program.Ensures FileActs (Kept path seen Anything)
          (unlinkAll entry.tmps >>= fun _ =>
            pure (Except.error (errFromErrno "rename 失败" failure) : Result Unit))
          fun _ => Kept path seen Anything :=
        (kept_unlinkAll entry.tmps htmps).bind fun _ => Program.ensures_pure fun _ hs => hs
      exact hdropped.mono (fun s hs => Kept.imp hs fun _ => trivial) fun _ _ hs => hs
  · exact kept_renameEach entry.tmps htmps entry.renames hothers

theorem kept_commitBatch (h : ∀ entry ∈ entries, EntrySpares path entry) :
    Program.Ensures FileActs (Kept path seen Anything) (commitBatch syncDir entries)
      fun _ => Kept path seen Anything := by
  refine Program.Ensures.bind (kept_quiet rfl) fun synced => ?_
  cases synced with
  | error e =>
    refine Program.Ensures.bind (kept_unlinkAll _ fun name hname => ?_) fun _ =>
      Program.ensures_pure fun _ hs => hs
    obtain ⟨entry, hentry, hname⟩ := List.mem_flatMap.mp hname
    exact (h entry hentry).tmps name hname
  | ok u =>
    have hmap : Program.Ensures FileActs (Kept path seen Anything) (entries.mapM renameEntry)
        fun _ => Kept path seen Anything := by
      clear u
      induction entries with
      | nil => exact Program.ensures_pure fun _ hs => hs
      | cons entry entries ih =>
        rw [List.mapM_cons]
        refine (kept_renameEntry (h entry List.mem_cons_self)).bind fun r => ?_
        refine (ih fun other hother => h other (List.mem_cons_of_mem _ hother)).bind fun rs => ?_
        exact Program.ensures_pure fun _ hs => hs
    refine hmap.bind fun results => Program.Ensures.bind ?_ fun _ =>
      Program.ensures_pure fun _ hs => hs
    unfold syncBatchDirectory
    split_ifs
    · exact (kept_quiet rfl).discard
    · exact Program.ensures_pure fun _ hs => hs

section Uses
variable {K : Call → Prop}

theorem unlinkAll_uses {tmps : List String} (hK : ∀ name ∈ tmps, K (.unlink name)) :
    (unlinkAll tmps).Uses K fun _ => True := by
  induction tmps with
  | nil => exact trivial
  | cons tmp tmps ih =>
    exact ⟨hK tmp List.mem_cons_self, fun _ => ih fun name hname => hK name (List.mem_cons_of_mem _ hname)⟩

theorem renameEach_uses {tmps : List String} {renames : List PendingRename}
    (hunlink : ∀ name ∈ tmps, K (.unlink name))
    (hrename : ∀ rename ∈ renames, K (.rename rename.tmp rename.finalPath)) :
    (renameEach tmps renames).Uses K fun _ => True := by
  induction renames with
  | nil => exact trivial
  | cons rename renames ih =>
    have hcall : (perform (.rename rename.tmp rename.finalPath)).Uses K fun _ => True :=
      ⟨hrename rename List.mem_cons_self, fun _ => trivial⟩
    refine Program.uses_bind hcall fun r _ => ?_
    cases r with
    | ok u => exact ih fun other hother => hrename other (List.mem_cons_of_mem _ hother)
    | error failure => exact Program.uses_bind (unlinkAll_uses hunlink) fun _ _ => trivial

theorem mapM_renameEntry_uses
    (hunlink : ∀ entry ∈ entries, ∀ name ∈ entry.tmps, K (.unlink name))
    (hrename : ∀ entry ∈ entries, ∀ rename ∈ entry.renames, K (.rename rename.tmp rename.finalPath)) :
    (entries.mapM renameEntry).Uses K fun _ => True := by
  induction entries with
  | nil => exact trivial
  | cons entry entries ih =>
    rw [List.mapM_cons]
    refine Program.uses_bind (renameEach_uses (hunlink entry List.mem_cons_self)
      (hrename entry List.mem_cons_self)) fun _ _ => ?_
    refine Program.uses_bind (ih (fun other hother => hunlink other (List.mem_cons_of_mem _ hother))
      fun other hother => hrename other (List.mem_cons_of_mem _ hother)) fun _ _ => trivial

/-- The calls of a commit. -/
theorem commitBatch_uses (hsync : ∀ directory, K (.syncFilesystem directory))
    (hdirectory : ∀ directory, K (.syncDirectory directory))
    (hunlink : ∀ entry ∈ entries, ∀ name ∈ entry.tmps, K (.unlink name))
    (hrename : ∀ entry ∈ entries, ∀ rename ∈ entry.renames, K (.rename rename.tmp rename.finalPath)) :
    (commitBatch syncDir entries).Uses K fun _ => True := by
  have hcall : (perform (.syncFilesystem (batchDirectory entries))).Uses K fun _ => True :=
    ⟨hsync _, fun _ => trivial⟩
  refine Program.uses_bind hcall fun synced _ => ?_
  cases synced with
  | error e =>
    refine Program.uses_bind (unlinkAll_uses fun name hname => ?_) fun _ _ => trivial
    obtain ⟨entry, hentry, hname⟩ := List.mem_flatMap.mp hname
    exact hunlink entry hentry name hname
  | ok u =>
    refine Program.uses_bind (mapM_renameEntry_uses hunlink hrename) fun _ _ => ?_
    have hlast : (syncBatchDirectory syncDir (batchDirectory entries)).Uses K fun _ => True := by
      unfold syncBatchDirectory
      split_ifs
      · exact ⟨hdirectory _, fun _ => trivial⟩
      · exact trivial
    exact Program.uses_bind hlast fun _ _ => trivial

theorem commitAndTell_uses {store : PosixBlobStore} {batch : Nat}
    (h : (commitBatch store.syncDirAfterBatch entries).Uses K fun _ => True)
    (hlock : K .lockCommit) (hunlock : K .unlockCommit)
    (hfinish : ∀ batch results, K (.finishBatch batch results)) :
    (store.commitAndTell batch entries).Uses K fun _ => True := by
  have hcall : (perform .lockCommit).Uses K fun _ => True := ⟨hlock, fun _ => trivial⟩
  refine Program.uses_bind hcall fun _ _ => Program.uses_bind h fun results _ => ?_
  exact ⟨hunlock, fun _ => ⟨hfinish batch results, fun _ => trivial⟩⟩

end Uses

/-- What every commit of the batch keeps, and every call that leaves the files alone, the
operation keeps that enters the batch with its object. -/
theorem ensures_joinBatch {store : PosixBlobStore} {P : Session → Prop} (htmp : Aside path tmp)
    (hsidecarTmp : Aside path sidecarTmp)
    (hcommit : ∀ entries, (∀ entry ∈ entries, EntrySpares path entry) →
      Program.Ensures FileActs P (commitBatch store.syncDirAfterBatch entries) fun _ => P)
    (hquiet : ∀ s op r s', isQuiet op = true → P s → FileActs s op r s' → P s')
    (hseat : ∀ s seat, P s → P { s with seat := seat }) :
    Interaction.Action.Ensures (Acts store.syncDirAfterBatch) P
      (store.joinBatch (objectRenames path tmp sidecarTmp)) (fun _ => P) fun _ => P := by
  have hcall : ∀ op, isQuiet op = true → Program.Ensures FileActs P (perform op) fun _ => P :=
    fun op hop => Program.ensures_perform fun s r s' => hquiet s op r s' hop
  have hown : ∀ batch entries, (∀ entry ∈ entries, EntrySpares path entry) →
      Program.Ensures (Acts store.syncDirAfterBatch) P (store.commitAndTell batch entries)
        fun _ => P := by
    intro batch entries hspares s t a s' hs hperforms
    have huses : (store.commitAndTell batch entries).Uses (isFileCall · = true) fun _ => True :=
      commitAndTell_uses (commitBatch_uses (fun _ => rfl) (fun _ => rfl) (fun _ _ _ _ => rfl)
        fun _ _ _ _ => rfl) rfl rfl fun _ _ => rfl
    have hfiles := hperforms.of_uses huses fun _ _ _ _ hop hacts =>
      (acts_of_isFileCall hop).mp hacts
    have hcommitted : Program.Ensures FileActs P (store.commitAndTell batch entries)
        fun _ => P := by
      refine Program.Ensures.bind (hcall _ rfl) fun _ => ?_
      refine (hcommit entries hspares).bind fun results => ?_
      exact Program.Ensures.bind (hcall _ rfl) fun _ => Program.Ensures.bind (hcall _ rfl) fun _ =>
        Program.ensures_pure fun _ hs => hs
    exact hcommitted s t a s' hs hfiles
  have henter : Interaction.Action.Ensures (Acts store.syncDirAfterBatch) P
      (Attempt.ask (.enterBatch (objectRenames path tmp sidecarTmp)))
      (fun seat s => P s ∧ s.seat = some (seat.index, objectRenames path tmp sidecarTmp) ∧
        ∀ entries, seat.committed = some entries → s.InBatch entries) fun _ => P := by
    refine Interaction.Action.ensures_call fun s seat s' hs hacts => ?_
    obtain ⟨rfl, hcommitted⟩ := hacts
    exact ⟨hseat s _ hs, rfl, hcommitted⟩
  refine henter.bind fun seat => ?_
  refine Interaction.Action.Ensures.bind (Q := fun _ => P) ?_ fun results => ?_
  · refine Interaction.Action.ensures_lift fun s t results s' hs hperforms => ?_
    obtain ⟨hs, hmine, hcommitted⟩ := hs
    have hdone : ∀ {s t results s'}, P s →
        s.seat = some (seat.index, objectRenames path tmp sidecarTmp) →
        (perform (.awaitDone seat.batch)).Performs (Acts store.syncDirAfterBatch) s t results s' →
          P s' := by
      intro s t results s' hs hmine hperforms
      obtain ⟨entries, u, hin, hcommitted⟩ := (Program.performs_perform.mp hperforms).1
      exact hcommit entries (hin.spares hmine htmp hsidecarTmp) s u results s' hs hcommitted
    unfold PosixBlobStore.batchResults at hperforms
    split at hperforms
    · next entries hentries =>
      have hin := hcommitted entries hentries
      exact hown _ entries (hin.spares hmine htmp hsidecarTmp) s t results s' hs hperforms
    · split_ifs at hperforms
      · obtain ⟨open?, s₁, rest, hfull, -, hrest⟩ := hperforms
        obtain ⟨rfl, hentries⟩ := hfull
        cases open? with
        | some entries =>
          have hin := hentries entries rfl
          exact hown _ entries (hin.spares hmine htmp hsidecarTmp) _ rest results s' hs hrest
        | none => exact hdone hs hmine hrest
      · exact hdone hs hmine hperforms
  · cases results[seat.index]?.getD (.ok ()) with
    | ok u => exact Interaction.Action.ensures_pure fun _ hs => hs
    | error e => exact Interaction.Action.ensures_throw fun _ hs => hs

theorem keeps_joinBatch {store : PosixBlobStore} (htmp : Aside path tmp)
    (hsidecarTmp : Aside path sidecarTmp) :
    Keeps store.syncDirAfterBatch path seen Anything
      (store.joinBatch (objectRenames path tmp sidecarTmp)) fun _ => Anything := by
  refine ensures_joinBatch htmp hsidecarTmp (fun entries hspares => kept_commitBatch hspares) ?_
    fun s seat hs => hs
  intro s op r s' hop hs hacts
  exact kept_quiet hop s _ r s' hs (Program.performs_perform.mpr ⟨hacts, rfl⟩)

end Batch

/-! ## The whole put -/

section Put
variable {path tmp : String} {seen : Option Bytes × Option Bytes} {store : PosixBlobStore}

theorem append_ne_self {a b : String} (hb : b ≠ "") : a ++ b ≠ a := by
  intro h
  have hlength := congrArg String.length h
  rw [String.length_append] at hlength
  exact hb (String.length_eq_zero_iff.mp (by omega))

theorem append_temp_ne_sidecar (path rest : String) :
    path ++ (tempMarker ++ rest) ≠ sidecarOf path := by
  intro h
  have hlist := congrArg String.toList h
  simp [sidecarOf, tempMarker, sidecarSuffix] at hlist

/-- A temporary name of the object or of its sidecar is another one. -/
theorem aside_temp {rest : String} : Aside path (path ++ (tempMarker ++ rest)) ∧
    Aside path (sidecarOf path ++ (tempMarker ++ rest)) := by
  have hrest : tempMarker ++ rest ≠ "" := by
    intro h
    have hlist := congrArg String.toList h
    simp [tempMarker] at hlist
  refine ⟨⟨append_ne_self hrest, append_temp_ne_sidecar path rest⟩, ?_, append_ne_self hrest⟩
  rw [sidecarOf, String.append_assoc]
  apply append_ne_self
  intro h
  have hlist := congrArg String.toList h
  simp [sidecarSuffix] at hlist

theorem keeps_tempPathFor {target : String} (htarget : target = path ∨ target = sidecarOf path)
    {syncDir : Bool} :
    Keeps syncDir path seen Anything (store.tempPathFor target) fun tmp _ => Aside path tmp := by
  refine (keeps_ask_quiet rfl).bind fun counter => keeps_pure fun _ _ => ?_
  simp only [String.append_assoc]
  rcases htarget with rfl | rfl
  · exact aside_temp.1
  · exact aside_temp.2

/-- The two files enter a batch. -/
theorem keeps_publishInBatch (htmp : Aside path tmp) (st : ObjectStat) :
    Keeps store.syncDirAfterBatch path seen Anything (store.publishInBatch tmp path st)
      fun _ => Anything := by
  refine (keeps_tempPathFor (.inr rfl)).bind fun sidecarTmp => ?_
  refine keeps_of (fun _ hs => hs) fun hsidecarTmp => ?_
  have hwrite : Keeps store.syncDirAfterBatch path seen Anything
      (Attempt.result (PosixBlobStore.writeTmpFile sidecarTmp
        (store.dump (PosixBlobStore.metaOf st)))) fun _ => Anything := by
    refine Interaction.Action.ensures_lift fun s t out s' hs hperforms => ?_
    have hend := keeps_writeTmpFile hsidecarTmp _ s t out s' hs hperforms
    cases out with
    | ok u => exact hend
    | error e => exact hend
  refine Keeps.mono (hwrite.bind fun out => ?_) (fun _ _ => trivial) fun _ _ hs => hs
  cases out with
  | error e => exact keeps_unlink_throw htmp
  | ok u => exact keeps_joinBatch htmp hsidecarTmp

/-- The object is renamed alone. -/
theorem keeps_publishAlone (hatomic : store.atomicWrite = true) (htmp : Aside path tmp)
    (st : ObjectStat) (needSync : Bool) :
    Keeps store.syncDirAfterBatch path seen Anything (store.publishAlone tmp path st needSync)
      fun _ => Anything := by
  unfold PosixBlobStore.publishAlone
  rw [if_pos hatomic]
  refine Keeps.bind (keeps_ask rfl spares_publish) fun r => ?_
  cases r with
  | error failure =>
    exact (keeps_unlink_throw htmp).mono (fun _ _ => trivial) fun _ _ hs => hs
  | ok u =>
    refine keeps_published.mono (fun s hs => ?_) fun _ _ hs => hs
    obtain ⟨failure, hfailed⟩ := hs
    cases hfailed

/-- From an open temporary file to the end of the put. -/
theorem keeps_received (hatomic : store.atomicWrite = true) (htmp : Aside path tmp) {file : Handle}
    (source : PosixBlobStore.ByteSource) (options : PutOptions) :
    Keeps store.syncDirAfterBatch path seen (Writing path file) (do
      let data ← store.writeObject file tmp source options
      let now ← Attempt.ask .nowEpochSeconds
      let st := store.statOfPut data options now
      if store.atomicWrite && store.batchCommit && !store.needsSync data then
        store.publishInBatch tmp path st
      else store.publishAlone tmp path st (store.needsSync data)) fun _ => Anything := by
  refine (keeps_writeObject htmp source options).bind fun data => ?_
  refine (keeps_ask_quiet rfl).bind fun now => ?_
  dsimp only
  split_ifs
  · exact keeps_publishInBatch htmp _
  · exact keeps_publishAlone hatomic htmp _ _

/-- A put keeps the object and its sidecar until it publishes the object. -/
theorem keeps_putAt (source : PosixBlobStore.ByteSource) (options : PutOptions) :
    Keeps store.syncDirAfterBatch path seen Anything (store.putAt path source options)
      fun _ => Anything := by
  cases hatomic : store.atomicWrite with
  | true =>
    have htarget : Keeps store.syncDirAfterBatch path seen Anything (store.targetOf path)
        fun tmp _ => Aside path tmp := by
      rw [PosixBlobStore.targetOf, if_pos hatomic]
      exact keeps_tempPathFor (.inl rfl)
    refine htarget.bind fun tmp => keeps_of (fun _ hs => hs) fun htmp => ?_
    have hopen : Keeps store.syncDirAfterBatch path seen Anything (store.openTarget tmp)
        fun r s => ∀ h, r = .ok h → Writing path h s := by
      rw [PosixBlobStore.openTarget, if_pos hatomic]
      exact keeps_openExclusive htmp
    refine Keeps.mono (hopen.bind fun r => ?_) (fun _ _ => trivial) fun _ _ hs => hs
    cases r with
    | error failure => exact keeps_throw
    | ok file =>
      exact (keeps_received hatomic htmp source options).mono (fun s hs => hs file rfl)
        fun _ _ hs => hs
  | false =>
    have htarget : store.targetOf path = pure path := by
      rw [PosixBlobStore.targetOf, hatomic]
      rfl
    have hopen : Keeps store.syncDirAfterBatch path seen Anything (store.openTarget path)
        fun r _ => ∃ failure, r = .error failure := by
      rw [PosixBlobStore.openTarget, hatomic]
      refine keeps_ask rfl fun s r s' hlook _ hdoes _ => ?_
      cases r with
      | ok h => exact .inl rfl
      | error failure => exact .inr ⟨hdoes ▸ hlook, failure, rfl⟩
    unfold PosixBlobStore.putAt
    rw [htarget, pure_bind]
    refine hopen.bind fun r => ?_
    cases r with
    | error failure => exact keeps_throw
    | ok file =>
      refine keeps_published.mono (fun s hs => ?_) fun _ _ hs => hs
      obtain ⟨failure, hfailed⟩ := hs
      cases hfailed

end Put

end FileService.Posix
