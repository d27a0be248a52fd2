import FileService.Posix.Copying

/-!
# The outcome of a copy

A copy that succeeds leaves the bytes of the source in the target. A copy that
fails leaves the target as it was or, once it has been published, complete; only
in place can it leave less.
-/
namespace FileService.Posix
open FileService.Common FileService.Domain FileService.Interaction

/-! ## Opening both files -/

section Opening
variable {fs now : FileSystem} {fromPath target path : String} {bytes : Bytes} {input : Handle}

/-- The source is open for reading, and nothing else is open. -/
structure Sourced (fs : FileSystem) (fromPath : String) (bytes : Bytes) (input : Handle)
    (now : FileSystem) : Prop where
  source : ∃ i, now.fileOf input = some i ∧ now.names fromPath = some i ∧ now.data i = bytes
  contents : ∀ p, now.contentAt p = fs.contentAt p
  only : ∀ h, h ≠ input → now.fileOf h = none

theorem Sourced.content (h : Sourced fs fromPath bytes input now) :
    fs.contentAt fromPath = some bytes := by
  obtain ⟨i, -, hi, hbytes⟩ := h.source
  rw [← h.contents, FileSystem.contentAt_eq_some hi, hbytes]

theorem Sourced.earlier (h : Sourced fs fromPath bytes input now) : input < now.nextHandle := by
  obtain ⟨i, hi, -⟩ := h.source
  obtain ⟨⟨j, offset⟩, hj, -⟩ := Option.map_eq_some_iff.mp hi
  exact (now.opened hj).2

theorem sourced_of_openRead {i : Nat} (hi : fs.atRest.names fromPath = some i) :
    Sourced fs fromPath (fs.data i) fs.atRest.nextHandle
      (fs.atRest.reopen i (fs.atRest.named hi)) := by
  refine ⟨⟨i, fileOf_reopen.trans (if_pos rfl), hi, rfl⟩, fun p => rfl, ?_⟩
  intro h hne
  exact fileOf_reopen.trans (if_neg hne)

theorem Sourced.create (h : Sourced fs fromPath bytes input now) :
    Opened fs target bytes input now.nextHandle (now.create target) := by
  have hinput := h.earlier.ne
  constructor
  · refine ⟨now.next, ?_, Function.update_self ..⟩
    rw [FileSystem.fileOf_create]
    exact if_pos rfl
  · obtain ⟨i, hi, hname, hbytes⟩ := h.source
    rw [FileSystem.fileOf_create, if_neg hinput, hi]
    have hne : i ≠ now.next := (now.named hname).ne
    simp [FileSystem.create, hne, hbytes]
  · intro p hp
    rw [FileSystem.contentAt_create_of_ne hp, h.contents]
  · intro h' hh'
    simp only [List.mem_cons, List.not_mem_nil, or_false, not_or] at hh'
    rw [FileSystem.fileOf_create, if_neg hh'.2]
    exact h.only h' hh'.1

theorem fileOf_openTruncated_of_ne {h : Handle} (hne : h ≠ fs.nextHandle) :
    (fs.openTruncated target).fileOf h = fs.fileOf h := by
  cases hj : fs.names target with
  | none =>
    rw [FileSystem.openTruncated_of_none hj, FileSystem.fileOf_create, if_neg hne]
  | some j =>
    rw [FileSystem.openTruncated_of_some hj]
    exact fileOf_reopen.trans (if_neg hne)

theorem Sourced.openTruncated (h : Sourced fs fromPath bytes input now) (hne : target ≠ fromPath) :
    Opened fs target bytes input now.nextHandle (now.openTruncated target) := by
  cases hj : now.names target with
  | none =>
    rw [FileSystem.openTruncated_of_none hj]
    exact h.create
  | some j =>
    constructor
    · rw [FileSystem.openTruncated_of_some hj]
      exact ⟨j, fileOf_reopen.trans (if_pos rfl), hj⟩
    · obtain ⟨i, hi, hname, hbytes⟩ := h.source
      have hij : i ≠ j := by
        rintro rfl
        exact hne (now.single hj hname)
      rw [fileOf_openTruncated_of_ne h.earlier.ne, hi, FileSystem.openTruncated_of_some hj]
      change some (Function.update now.data j [] i) = some bytes
      rw [Function.update_of_ne hij, hbytes]
    · intro p hp
      rw [FileSystem.contentAt_openTruncated_of_ne hp, h.contents]
    · intro h' hh'
      simp only [List.mem_cons, List.not_mem_nil, or_false, not_or] at hh'
      rw [fileOf_openTruncated_of_ne hh'.2]
      exact h.only h' hh'.1

theorem contentAt_rename_target (hne : target ≠ path) :
    (fs.rename target path).contentAt path = fs.contentAt target := by
  unfold FileSystem.contentAt
  rw [FileSystem.data_rename]
  congr 1
  unfold FileSystem.rename
  rw [dif_neg hne]
  change Function.update (Function.update fs.names path (fs.names target)) target none path = _
  rw [Function.update_of_ne hne.symm, Function.update_self]

end Opening

/-! ## After the copy is published -/

section Tail
variable {fromPath toPath path : String} {store : PosixBlobStore}

/-- The file of the metadata of an object, or a temporary one of it. -/
def IsSidecarFile (path name : String) : Prop :=
  name = sidecarOf path ∨ ∃ rest, name = sidecarOf path ++ tempMarker ++ rest

theorem not_isSidecarFile_self : ¬IsSidecarFile path path := by
  rintro (h | ⟨rest, h⟩)
  · exact append_ne_self (by decide) h.symm
  · exact sidecar_temp_ne h.symm

/-- The calls of a copy after it has been published. -/
def FollowsCopy (toPath : String) : Call → Prop
  | .stat _ => True
  | .readFile _ => True
  | call => WritesSidecar toPath call

theorem followsCopy_of_writesSidecar {call : Call} (h : WritesSidecar toPath call) :
    FollowsCopy toPath call := by
  cases call <;> first | exact h | trivial

theorem followsCopy_of_isQuiet {call : Call} (h : isQuiet call = true) :
    FollowsCopy toPath call := by
  cases call <;> first | exact h | cases h

theorem followsCopy_of_looksAt {call : Call} (h : LooksAt toPath call) :
    FollowsCopy toPath call := by
  cases call with
  | stat target => trivial
  | readFile target => trivial
  | _ => exact followsCopy_of_isQuiet h

/-- They leave alone whatever is no file of the target's metadata. -/
theorem sparing_of_followsCopy {call : Call} (hpath : ¬IsSidecarFile toPath path)
    (h : FollowsCopy toPath call) : Sparing path call := by
  have htemp : ∀ rest, sidecarOf toPath ++ tempMarker ++ rest ≠ path :=
    fun rest hsame => hpath (.inr ⟨rest, hsame.symm⟩)
  cases call with
  | openTruncated target =>
    obtain ⟨rest, rfl⟩ := h
    exact htemp rest
  | unlink target =>
    obtain ⟨rest, rfl⟩ := h
    exact htemp rest
  | rename source target =>
    obtain ⟨⟨rest, rfl⟩, rfl⟩ := h
    exact ⟨htemp rest, fun hsame => hpath (.inl hsame.symm)⟩
  | _ => first | rfl | cases h

theorem copySidecar_follows (needSync : Bool) :
    (ExceptT.run (store.copySidecar fromPath toPath needSync)).Uses (FollowsCopy toPath)
      fun _ => True := by
  have hread : (ExceptT.run (Attempt.result (store.readSidecar fromPath))).Uses
      (FollowsCopy toPath) fun _ => True := by
    apply Program.uses_bind (Q := fun _ => True)
    · refine uses_action_bind (ask_uses trivial) (fun r _ => ?_) fun _ _ => trivial
      refine uses_action_bind (tryResult_uses r) (fun text _ => ?_) fun _ _ => trivial
      exact uses_action_bind (tryResult_uses _) (fun _ _ => trivial) fun _ _ => trivial
    · intro _ _
      trivial
  refine uses_action_bind hread (fun sidecar _ => ?_) fun _ _ => trivial
  cases sidecar with
  | error e => exact trivial
  | ok st =>
    refine uses_action_bind (ask_uses rfl) (fun now _ => ?_) fun _ _ => trivial
    exact Program.uses_mono (fun _ => followsCopy_of_writesSidecar) (writeSidecar_writes _ _)

end Tail

/-! ## What the copy leaves -/

section Outcome
variable {store : PosixBlobStore} {fs now : FileSystem} {fromPath toPath tmp : String}
variable {bytes copied : Bytes} {s : Session} {input output : Handle}

/-- What a copy that fails may leave of its target: what it was or, once it has been published,
the complete copy; in place also nothing, unless the target cannot be removed. -/
inductive TargetLeft (store : PosixBlobStore) (fs : FileSystem) (fromPath toPath : String)
    (calls : Trace posix) (fs' : FileSystem) : Prop
  | kept : fs'.contentAt toPath = fs.contentAt toPath →
      TargetLeft store fs fromPath toPath calls fs'
  | copied : Published toPath calls → fs'.contentAt toPath = fs.contentAt fromPath →
      TargetLeft store fs fromPath toPath calls fs'
  | dropped : store.atomicWrite = false → Published toPath calls →
      (fs'.contentAt toPath = none ∨
        ∃ failure, (⟨.unlink toPath, .error failure⟩ : Occurrence posix) ∈ calls) →
      TargetLeft store fs fromPath toPath calls fs'

/-- Another object than the target, which is no file of the target's metadata, is what it was. -/
def SourceKept (fs : FileSystem) (fromPath toPath : String) (fs' : FileSystem) : Prop :=
  fromPath ≠ toPath → ¬IsSidecarFile toPath fromPath →
    fs'.contentAt fromPath = fs.contentAt fromPath

/-- A copy has failed. -/
structure CopyLeft (store : PosixBlobStore) (fs : FileSystem) (fromPath toPath : String)
    (s : Session) : Prop where
  target : TargetLeft store fs fromPath toPath s.calls s.files
  source : SourceKept fs fromPath toPath s.files

/-- The copy has been published. -/
structure CopyDone (fs : FileSystem) (fromPath toPath : String) (bytes : Bytes) (s : Session) :
    Prop where
  source : fs.contentAt fromPath = some bytes
  published : Published toPath s.calls
  target : Sealed toPath (some bytes) s.files
  kept : fromPath ≠ toPath → ¬IsSidecarFile toPath fromPath →
    Sealed fromPath (some bytes) s.files

theorem copyLeft_of_same (hsame : ∀ p, s.files.contentAt p = fs.contentAt p) :
    CopyLeft store fs fromPath toPath s :=
  ⟨.kept (hsame toPath), fun _ _ => hsame fromPath⟩

theorem CopyDone.left (h : CopyDone fs fromPath toPath bytes s) :
    CopyLeft store fs fromPath toPath s := by
  constructor
  · exact .copied h.published (h.target.content.trans h.source.symm)
  · intro hne hsidecar
    exact (h.kept hne hsidecar).content.trans h.source.symm

theorem Written.sealed {path : String} {content : Option Bytes}
    (h : Written fs tmp copied [] now) (hcontent : now.contentAt path = content) :
    Sealed path content now := by
  refine ⟨hcontent, fun file i hi => ?_⟩
  rw [h.only file List.not_mem_nil] at hi
  cases hi

/-- Where the copy is written: a temporary file of the target, or the target itself. -/
structure Aims (store : PosixBlobStore) (fromPath toPath tmp : String) : Prop where
  atomic : store.atomicWrite = true → tmp ≠ toPath
  inPlace : store.atomicWrite = false → tmp = toPath
  apart : tmp ≠ fromPath

/-- The file that was written is dropped. -/
theorem ensures_drop (haims : Aims store fromPath toPath tmp) {e : Error} {α : Type}
    {Q : α → Session → Prop} :
    Interaction.Action.Ensures FileActs
      (fun s => Written fs tmp copied [] s.files ∧ Begun store toPath s)
      (Attempt.tell (.unlink tmp) >>= fun _ => throw e) Q
      fun _ => CopyLeft store fs fromPath toPath := by
  apply Interaction.Action.Ensures.bind (Q := fun _ => CopyLeft store fs fromPath toPath)
  · apply Interaction.Action.Ensures.bind (Q := fun _ => CopyLeft store fs fromPath toPath)
    · apply Interaction.Action.ensures_call
      rintro s r s' ⟨hwritten, hbegun⟩ hacts
      have hbegun' := hbegun.fileActs hacts
      obtain ⟨hdoes, -, hcalls⟩ := hacts
      have hother : ∀ p, p ≠ tmp → s'.files.contentAt p = fs.contentAt p := by
        intro p hp
        rw [← hwritten.others p hp]
        cases r with
        | ok u => rw [hdoes.2, FileSystem.contentAt_unlink_of_ne hp]
        | error failure => rw [hdoes.2]
      constructor
      · cases hatomic : store.atomicWrite with
        | true => exact .kept (hother _ (haims.atomic hatomic).symm)
        | false =>
          apply TargetLeft.dropped hatomic (hbegun' hatomic)
          rw [haims.inPlace hatomic] at hdoes hcalls
          cases r with
          | ok u =>
            rw [hdoes.2]
            exact .inl contentAt_unlink
          | error failure =>
            rw [hcalls]
            exact .inr ⟨failure, List.mem_append_right _ (List.mem_singleton_self _)⟩
      · intro _ _
        exact hother _ haims.apart.symm
    · intro _
      exact Interaction.Action.ensures_pure fun _ hs => hs
  · intro _
    exact Interaction.Action.ensures_throw fun _ hs => hs

/-- Where the renaming leads to: to the copy in place, or to where it started. -/
def CopyRenamed (store : PosixBlobStore) (fs : FileSystem) (fromPath toPath tmp : String)
    (bytes : Bytes) : Sys Unit → Session → Prop
  | .error _, s => Written fs tmp bytes [] s.files ∧ Begun store toPath s
  | .ok _, s => CopyDone fs fromPath toPath bytes s

/-- The copy becomes the target, or the target is left as a failed copy may leave it. -/
theorem ensures_publishCopy {ok : Bool} (haims : Aims store fromPath toPath tmp)
    (hsource : fs.contentAt fromPath = some bytes) :
    Interaction.Action.Ensures FileActs
      (fun s => (∃ copied, Written fs tmp copied [] s.files ∧ (ok = true → copied = bytes)) ∧
        Begun store toPath s)
      (store.publishCopy ok tmp toPath) (fun _ => CopyDone fs fromPath toPath bytes)
      fun _ => CopyLeft store fs fromPath toPath := by
  unfold PosixBlobStore.publishCopy
  cases ok with
  | false =>
    apply (Interaction.Action.Ensures.of_exists fun copied => ensures_drop haims).mono
    · rintro s ⟨⟨copied, hwritten, -⟩, hbegun⟩
      exact ⟨copied, hwritten, hbegun⟩
    · exact fun _ _ h => h
    · exact fun _ _ h => h
  | true =>
    have hstart : ∀ s : Session, ((∃ copied, Written fs tmp copied [] s.files ∧
        (true = true → copied = bytes)) ∧ Begun store toPath s) →
        Written fs tmp bytes [] s.files ∧ Begun store toPath s := by
      rintro s ⟨⟨copied, hwritten, hcopied⟩, hbegun⟩
      exact ⟨hcopied rfl ▸ hwritten, hbegun⟩
    have hother : ∀ {now}, Written fs tmp bytes [] now →
        now.contentAt fromPath = some bytes :=
      fun hwritten => (hwritten.others _ haims.apart.symm).trans hsource
    refine Interaction.Action.Ensures.mono ?_ hstart (fun _ _ h => h) fun _ _ h => h
    cases hatomic : store.atomicWrite with
    | false =>
      apply Interaction.Action.ensures_pure
      rintro s ⟨hwritten, hbegun⟩
      have hcontent := haims.inPlace hatomic ▸ hwritten.content
      exact ⟨hsource, hbegun hatomic, hwritten.sealed hcontent,
        fun _ _ => hwritten.sealed (hother hwritten)⟩
    | true =>
      apply Interaction.Action.Ensures.bind (Q := CopyRenamed store fs fromPath toPath tmp bytes)
      · apply Interaction.Action.ensures_call
        rintro s r s' ⟨hwritten, hbegun⟩ hacts
        cases r with
        | error failure =>
          have hfiles : s'.files = s.files := hacts.1
          exact ⟨hfiles ▸ hwritten, hbegun.fileActs hacts⟩
        | ok u =>
          obtain ⟨⟨-, hfiles⟩, -, hcalls⟩ := hacts
          have hclosed : ∀ file i, s'.files.fileOf file ≠ some i := by
            intro file i hi
            have hnone := hwritten.only file List.not_mem_nil
            rw [hfiles] at hi
            unfold FileSystem.rename at hi
            split at hi
            · rw [hnone] at hi
              cases hi
            · change s.files.fileOf file = some i at hi
              rw [hnone] at hi
              cases hi
          constructor
          · exact hsource
          · exact ⟨⟨.rename tmp toPath, .ok u⟩,
              hcalls ▸ List.mem_append_right _ (List.mem_singleton_self _), rfl⟩
          · constructor
            · rw [hfiles, contentAt_rename_target (haims.atomic hatomic), hwritten.content]
            · intro file i hi
              exact absurd hi (hclosed file i)
          · intro hne _
            constructor
            · rw [hfiles, FileSystem.contentAt_rename_of_ne haims.apart.symm hne, hother hwritten]
            · intro file i hi
              exact absurd hi (hclosed file i)
      · intro r
        cases r with
        | error failure => exact ensures_drop haims
        | ok u => exact Interaction.Action.ensures_pure fun _ hs => hs

/-- After it has been published, the copy stays. -/
theorem ensures_followsCopy {α : Type} {x : Attempt α}
    (hx : (ExceptT.run x).Uses (FollowsCopy toPath) fun _ => True) :
    Interaction.Action.Ensures FileActs (CopyDone fs fromPath toPath bytes) x
      (fun _ => CopyDone fs fromPath toPath bytes) fun _ => CopyLeft store fs fromPath toPath := by
  apply (Interaction.Action.ensures_of_uses (P := CopyDone fs fromPath toPath bytes) hx _).mono
  · exact fun _ hs => hs
  · exact fun _ _ hs => hs.2
  · exact fun _ _ hs => hs.left
  · rintro s op r s' hop ⟨hsource, hpublished, htarget, hkept⟩ hacts
    constructor
    · exact hsource
    · exact published_fileActs hacts hpublished
    · exact htarget.does (sparing_of_followsCopy not_isSidecarFile_self hop) hacts.1
    · intro hne hsidecar
      exact (hkept hne hsidecar).does (sparing_of_followsCopy hsidecar hop) hacts.1

/-- The source is opened, or nothing has changed. -/
theorem ensures_openSource :
    Interaction.Action.Ensures FileActs (fun s => s.files = fs.atRest)
      (Attempt.ask (.openRead fromPath)) (fun r s =>
        match r with
        | .error _ => ∀ p, s.files.contentAt p = fs.contentAt p
        | .ok input => ∃ bytes, Sourced fs fromPath bytes input s.files)
      fun _ _ => False := by
  apply Interaction.Action.ensures_call
  rintro s r s' hs ⟨hdoes, -, -⟩
  rw [hs] at hdoes
  cases r with
  | error failure =>
    intro p
    rw [show s'.files = fs.atRest from hdoes]
    rfl
  | ok input =>
    obtain ⟨rfl, i, hi, hfiles⟩ := hdoes
    exact ⟨fs.data i, hfiles ▸ sourced_of_openRead hi⟩

/-- The name that the copy is written under. -/
theorem ensures_targetOf {P : Session → Prop}
    (hP : ∀ s op r s', isQuiet op = true → P s → FileActs s op r s' → P s') :
    Interaction.Action.Ensures FileActs P (store.targetOf toPath)
      (fun tmp s => ((store.atomicWrite = true → tmp ≠ toPath) ∧
        (store.atomicWrite = false → tmp = toPath)) ∧ P s) fun _ _ => False := by
  unfold PosixBlobStore.targetOf
  cases store.atomicWrite with
  | false => exact Interaction.Action.ensures_pure fun _ hs => ⟨⟨by simp, fun _ => rfl⟩, hs⟩
  | true =>
    rw [if_pos rfl]
    unfold PosixBlobStore.tempPathFor
    apply Interaction.Action.Ensures.bind (Q := fun _ => P)
    · apply Interaction.Action.ensures_call
      intro s r s' hs hacts
      exact hP s _ r s' rfl hs hacts
    · intro counter
      apply Interaction.Action.ensures_pure
      intro s hs
      simp only [String.append_assoc]
      exact ⟨⟨fun _ => aside_temp.1.1, by simp⟩, hs⟩

/-- The target is opened, or nothing has changed. -/
theorem ensures_openTarget (hslip : store.atomicWrite = false → fromPath ≠ toPath)
    (htmp : (store.atomicWrite = true → tmp ≠ toPath) ∧
      (store.atomicWrite = false → tmp = toPath)) :
    Interaction.Action.Ensures FileActs (fun s => Sourced fs fromPath bytes input s.files)
      (store.openTarget tmp) (fun r s =>
        match r with
        | .error _ => ∀ p, s.files.contentAt p = fs.contentAt p
        | .ok output => (Aims store fromPath toPath tmp ∧ fs.contentAt fromPath = some bytes) ∧
            Opened fs tmp bytes input output s.files ∧ Begun store toPath s)
      fun _ _ => False := by
  unfold PosixBlobStore.openTarget
  cases hatomic : store.atomicWrite with
  | true =>
    apply Interaction.Action.ensures_call
    rintro s r s' hs ⟨hdoes, -, -⟩
    cases r with
    | error failure =>
      intro p
      rw [show s'.files = s.files from hdoes, hs.contents]
    | ok output =>
      obtain ⟨hfree, rfl, hfiles⟩ := hdoes
      have hapart : tmp ≠ fromPath := by
        rintro rfl
        have hcontent := hs.content
        rw [← hs.contents, FileSystem.contentAt_eq_none.mpr hfree] at hcontent
        cases hcontent
      refine ⟨⟨⟨htmp.1, htmp.2, hapart⟩, hs.content⟩, hfiles ▸ hs.create, ?_⟩
      intro hplace
      rw [hatomic] at hplace
      cases hplace
  | false =>
    obtain rfl := htmp.2 hatomic
    apply Interaction.Action.ensures_call
    rintro s r s' hs ⟨hdoes, -, hcalls⟩
    cases r with
    | error failure =>
      intro p
      rw [show s'.files = s.files from hdoes, hs.contents]
    | ok output =>
      obtain ⟨rfl, hfiles⟩ := hdoes
      have hapart : tmp ≠ fromPath := (hslip hatomic).symm
      refine ⟨⟨⟨htmp.1, htmp.2, hapart⟩, hs.content⟩, hfiles ▸ hs.openTruncated hapart, ?_⟩
      intro _
      exact ⟨⟨.openTruncated tmp, .ok s.files.nextHandle⟩,
        hcalls ▸ List.mem_append_right _ (List.mem_singleton_self _), rfl⟩

/-- From where both paths are known. -/
theorem ensures_copyAt {source : ObjectRef}
    (hslip : store.atomicWrite = false → fromPath ≠ toPath) :
    Interaction.Action.Ensures FileActs (fun s => s.files = fs.atRest)
      (store.copyAt source fromPath toPath)
      (fun _ s => ∃ bytes, CopyDone fs fromPath toPath bytes s)
      fun _ => CopyLeft store fs fromPath toPath := by
  have hleft : ∀ {α : Type} {e : Error} {Q : α → Session → Prop}, Interaction.Action.Ensures
      FileActs (fun s => ∀ p, s.files.contentAt p = fs.contentAt p) (throw e : Attempt α) Q
        fun _ => CopyLeft store fs fromPath toPath := by
    intro α e Q
    exact Interaction.Action.ensures_throw fun s hs => copyLeft_of_same hs
  unfold PosixBlobStore.copyAt
  apply Interaction.Action.Ensures.bind
    (ensures_openSource.mono (fun _ h => h) (fun _ _ h => h) fun _ _ h => h.elim)
  intro r
  cases r with
  | error failure =>
    dsimp only
    split_ifs
    · exact hleft
    · exact hleft
  | ok input =>
    apply Interaction.Action.Ensures.of_exists
    intro bytes
    have hquiet : ∀ s op r s', isQuiet op = true → Sourced fs fromPath bytes input s.files →
        FileActs s op r s' → Sourced fs fromPath bytes input s'.files := by
      intro s op r s' hop hs hacts
      exact does_of_isQuiet hop hacts.1 ▸ hs
    apply Interaction.Action.Ensures.bind
      ((ensures_targetOf (P := fun s => Sourced fs fromPath bytes input s.files) hquiet).mono
        (fun _ h => h) (fun _ _ h => h) fun _ _ h => h.elim)
    intro tmp
    apply Interaction.Action.Ensures.of_fact (fun s hs => hs.1)
    intro htmp
    apply Interaction.Action.Ensures.bind
      ((ensures_openTarget hslip htmp).mono (fun _ h => h.2) (fun _ _ h => h) fun _ _ h => h.elim)
    intro r
    cases r with
    | error failure =>
      apply Interaction.Action.Ensures.bind
        (Q := fun _ s => ∀ p, s.files.contentAt p = fs.contentAt p)
      · apply Interaction.Action.Ensures.bind
          (Q := fun _ s => ∀ p, s.files.contentAt p = fs.contentAt p)
        · apply Interaction.Action.ensures_call
          intro s r s' hs hacts p
          rw [show s'.files = s.files.close input from hacts.1]
          exact hs p
        · intro _
          exact Interaction.Action.ensures_pure fun _ hs => hs
      · intro _
        exact hleft
    | ok output =>
      apply Interaction.Action.Ensures.of_fact (fun s hs => hs.1)
      rintro ⟨haims, hsource⟩
      apply Interaction.Action.Ensures.bind
        (ensures_copyBytes.mono (fun _ h => h.2) (fun _ _ h => h) fun _ _ h => h.elim)
      rintro ⟨ok, needSync⟩
      apply Interaction.Action.Ensures.bind (ensures_publishCopy haims hsource)
      intro _
      have hsidecar : Interaction.Action.Ensures FileActs (CopyDone fs fromPath toPath bytes)
          (store.copySidecar fromPath toPath needSync)
          (fun _ s => ∃ bytes, CopyDone fs fromPath toPath bytes s)
          fun _ => CopyLeft store fs fromPath toPath :=
        (ensures_followsCopy (copySidecar_follows needSync)).mono (fun _ h => h)
          (fun _ _ h => ⟨bytes, h⟩) fun _ _ h => h
      dsimp only
      split_ifs
      · refine Interaction.Action.Ensures.bind (ensures_followsCopy ?_) fun _ => hsidecar
        exact ⟨rfl, fun _ => trivial⟩
      · exact hsidecar

end Outcome

/-! ## The whole copy -/

section Copy
variable {store : PosixBlobStore} {source target : ObjectRef} {fs fs' : FileSystem}
variable {calls : Trace posix} {out : Result ObjectStat} {fromPath toPath : String}

/-- A copy that finds the first files makes these calls, ends so and leaves the others. -/
def PosixBlobStore.Copies (store : PosixBlobStore) (source target : ObjectRef) (fs : FileSystem)
    (calls : Trace posix) (out : Result ObjectStat) (fs' : FileSystem) : Prop :=
  ∃ t s, (ExceptT.run (store.copy source target)).Performs FileActs (Session.start fs) t out s ∧
    s.calls = calls ∧ s.files = fs'

theorem ensures_atRest {α : Type} {x : Attempt α} {U : Result α → Prop}
    (hx : (ExceptT.run x).Uses (isQuiet · = true) U) :
    Interaction.Action.Ensures FileActs (fun s => s.files = fs.atRest) x
      (fun a s => U (.ok a) ∧ s.files = fs.atRest)
      fun _ s => ∀ p, s.files.contentAt p = fs.contentAt p :=
  (Interaction.Action.ensures_of_uses hx fun _ _ _ _ hop hs hacts =>
    (does_of_isQuiet hop hacts.1).trans hs).mono (fun _ hs => hs) (fun _ _ hs => hs)
      fun _ s hs p => by
        rw [hs]
        rfl

/-- The whole copy. -/
theorem ensures_copy
    (hslip : store.atomicWrite = false → store.pathOf source ≠ store.pathOf target) :
    Interaction.Action.Ensures FileActs (fun s => s.files = fs.atRest) (store.copy source target)
      (fun _ s => ∃ fromPath toPath bytes, store.pathOf source = .ok fromPath ∧
        store.pathOf target = .ok toPath ∧ CopyDone fs fromPath toPath bytes s)
      fun _ s => (∀ p, s.files.contentAt p = fs.contentAt p) ∨ ∃ fromPath toPath,
        store.pathOf source = .ok fromPath ∧ store.pathOf target = .ok toPath ∧
          CopyLeft store fs fromPath toPath s := by
  unfold PosixBlobStore.copy
  apply Interaction.Action.Ensures.bind
    ((ensures_atRest (objectPath_uses fun _ hop => hop)).mono (fun _ h => h) (fun _ _ h => h)
      fun _ _ h => .inl h)
  intro fromPath
  apply Interaction.Action.Ensures.of_fact (fun s hs => hs.1 fromPath rfl)
  intro hfrom
  refine Interaction.Action.Ensures.mono ?_ (fun s hs => hs.2) (fun _ _ h => h) fun _ _ h => h
  apply Interaction.Action.Ensures.bind
    ((ensures_atRest (tryResult_uses _)).mono (fun _ h => h) (fun _ _ h => h.2)
      fun _ _ h => .inl h)
  intro toDir
  apply Interaction.Action.Ensures.bind
    ((ensures_atRest (ask_uses rfl)).mono (fun _ h => h) (fun _ _ h => h.2) fun _ _ h => .inl h)
  intro found
  have hrest : Interaction.Action.Ensures FileActs (fun s => s.files = fs.atRest)
      (store.writableObjectPath target.container target.key >>= fun toPath =>
        store.copyAt source fromPath toPath >>= fun _ => store.stat target)
      (fun _ s => ∃ fromPath toPath bytes, store.pathOf source = .ok fromPath ∧
        store.pathOf target = .ok toPath ∧ CopyDone fs fromPath toPath bytes s)
      fun _ s => (∀ p, s.files.contentAt p = fs.contentAt p) ∨ ∃ fromPath toPath,
        store.pathOf source = .ok fromPath ∧ store.pathOf target = .ok toPath ∧
          CopyLeft store fs fromPath toPath s := by
    apply Interaction.Action.Ensures.bind
      ((ensures_atRest (writableObjectPath_uses fun _ hop => hop)).mono (fun _ h => h)
        (fun _ _ h => h) fun _ _ h => .inl h)
    intro toPath
    apply Interaction.Action.Ensures.of_fact (fun s hs => hs.1 toPath rfl)
    intro hto
    have hapart : store.atomicWrite = false → fromPath ≠ toPath := by
      rintro hplace rfl
      exact hslip hplace (hfrom.trans hto.symm)
    apply Interaction.Action.Ensures.bind
      ((ensures_copyAt hapart).mono (fun s hs => hs.2) (fun _ _ h => h)
        fun _ _ h => .inr ⟨fromPath, toPath, hfrom, hto, h⟩)
    intro _
    apply Interaction.Action.Ensures.of_exists
    intro bytes
    have hlooks : (ExceptT.run (store.stat target)).Uses (FollowsCopy toPath) fun _ => True :=
      Program.uses_mono (fun _ => followsCopy_of_looksAt) (stat_looks hto)
    apply (@ensures_followsCopy store _ _ _ _ _ _ hlooks).mono
    · exact fun _ h => h
    · exact fun _ s h => ⟨fromPath, toPath, bytes, hfrom, hto, h⟩
    · exact fun _ s h => .inr ⟨fromPath, toPath, hfrom, hto, h⟩
  cases found with
  | true => exact hrest
  | false =>
    apply Interaction.Action.ensures_throw
    intro s hs
    left
    intro p
    rw [hs]
    rfl

/-- A copy that succeeds leaves the bytes of the source in the target. One that fails has changed
nothing, or it leaves the target as it was, or complete once it is published; in place it may
also remove it. -/
theorem copy_outcome
    (hslip : store.atomicWrite = false → store.pathOf source ≠ store.pathOf target)
    (h : store.Copies source target fs calls out fs') :
    (∀ st, out = .ok st → ∃ fromPath toPath bytes, store.pathOf source = .ok fromPath ∧
      store.pathOf target = .ok toPath ∧ fs.contentAt fromPath = some bytes ∧
        fs'.contentAt toPath = some bytes ∧ SourceKept fs fromPath toPath fs') ∧
    ∀ e, out = .error e → (∀ p, fs'.contentAt p = fs.contentAt p) ∨ ∃ fromPath toPath,
      store.pathOf source = .ok fromPath ∧ store.pathOf target = .ok toPath ∧
        TargetLeft store fs fromPath toPath calls fs' ∧ SourceKept fs fromPath toPath fs' := by
  obtain ⟨t, s, hperforms, rfl, rfl⟩ := h
  have hend := ensures_copy hslip (Session.start fs) t out s rfl hperforms
  constructor
  · rintro st rfl
    obtain ⟨fromPath, toPath, bytes, hfrom, hto, hdone⟩ := hend
    refine ⟨fromPath, toPath, bytes, hfrom, hto, hdone.source, hdone.target.content, ?_⟩
    intro hne hsidecar
    exact (hdone.kept hne hsidecar).content.trans hdone.source.symm
  · rintro e rfl
    rcases hend with hsame | ⟨fromPath, toPath, hfrom, hto, hleft⟩
    · exact .inl hsame
    · exact .inr ⟨fromPath, toPath, hfrom, hto, hleft.target, hleft.source⟩

end Copy

/-! ## A copy in place that breaks off -/

section Broken

/-- Two objects of one byte each. -/
def twoObjects : FileSystem := (oneObject.create "/r/c/s").setData 1 [1]

/-- The bytes cannot be copied: the target, which was there, is removed. -/
theorem inPlaceStore_copy_removes : ∃ calls e fs', inPlaceStore.Copies ⟨"c", "s", none⟩
    ⟨"c", "k", none⟩ twoObjects calls (.error e) fs' ∧ fs'.contentAt "/r/c/k" = none := by
  have hmay : MayEnd FileActs (inPlaceStore.copy ⟨"c", "s", none⟩ ⟨"c", "k", none⟩)
      (Session.start twoObjects) (.error (err .internal "复制失败"))
      fun s => s.files.contentAt "/r/c/k" = none := by
    have hfrom : inPlaceStore.pathOf ⟨"c", "s", none⟩ = .ok "/r/c/s" := by decide
    have hdir : inPlaceStore.containerDir "c" = .ok "/r/c" := by decide
    unfold PosixBlobStore.copy
    apply mayEnd_objectPath hfrom fun _ _ r => fileActs_quiet r
    rintro ⟨files, seat, calls⟩ hfiles
    cases hfiles
    rw [hdir, Attempt.tryResult, pure_bind]
    refine mayEnd_ask (.fileExists "/r/c") true _ (fileActs_after rfl) ?_
    apply mayEnd_writableObjectPath inPlaceStore_pathOf fun _ _ r => fileActs_quiet r
    rintro ⟨files, seat, calls⟩ hfiles
    cases hfiles
    refine mayEnd_ask (.openRead "/r/c/s") (.ok 0) _ (fileActs_after ⟨rfl, 1, rfl, rfl⟩) ?_
    refine mayEnd_ask (.openTruncated "/r/c/k") (.ok 1) _ (fileActs_after ⟨rfl, rfl⟩) ?_
    refine mayEnd_ask (.fstat 0) (.ok 1) _ (fileActs_after ⟨rfl, rfl⟩) ?_
    refine mayEnd_ask (.copyFd 0 1) false _ (fileActs_after ⟨[], by simp, rfl⟩) ?_
    refine mayEnd_ask (.close 0) (.ok ()) _ (fileActs_after rfl) ?_
    refine mayEnd_ask (.close 1) (.ok ()) _ (fileActs_after rfl) ?_
    refine mayEnd_ask (.unlink "/r/c/k") (.ok ()) _ (fileActs_after ⟨?_, rfl⟩) ?_
    · rfl
    · exact ⟨[], _, ⟨rfl, rfl, rfl⟩, contentAt_unlink⟩
  obtain ⟨t, s, hperforms, hgone⟩ := hmay
  exact ⟨s.calls, _, s.files, ⟨t, s, hperforms, rfl, rfl⟩, hgone⟩

/-- A failing copy may change its target. -/
theorem failed_copy_loses_target :
    ¬∀ (store : PosixBlobStore) (source target : ObjectRef) (fs : FileSystem) (calls : Trace posix)
      (out : Result ObjectStat) (fs' : FileSystem), store.Copies source target fs calls out fs' →
      ∀ fromPath toPath, store.pathOf source = .ok fromPath → store.pathOf target = .ok toPath →
        (∀ st, out = .ok st → (fs.contentAt fromPath).isSome ∧
          fs'.contentAt toPath = fs.contentAt fromPath) ∧
        (∀ e, out = .error e → fs'.contentAt toPath = fs.contentAt toPath) ∧
        (fromPath ≠ toPath → fs'.contentAt fromPath = fs.contentAt fromPath) := by
  intro hall
  obtain ⟨calls, e, fs', hcopies, hgone⟩ := inPlaceStore_copy_removes
  have hfrom : inPlaceStore.pathOf ⟨"c", "s", none⟩ = .ok "/r/c/s" := by decide
  have hkept := (hall _ _ _ _ _ _ _ hcopies _ _ hfrom inPlaceStore_pathOf).2.1 e rfl
  have hthere : twoObjects.contentAt "/r/c/k" = some [0] := by decide
  rw [hgone, hthere] at hkept
  cases hkept

/-- What the copy that breaks off leaves is among what a failing copy may leave. -/
theorem broken_copy_outcome : ∃ calls e fs', inPlaceStore.Copies ⟨"c", "s", none⟩
    ⟨"c", "k", none⟩ twoObjects calls (.error e) fs' ∧ fs'.contentAt "/r/c/k" = none ∧
      TargetLeft inPlaceStore twoObjects "/r/c/s" "/r/c/k" calls fs' := by
  obtain ⟨calls, e, fs', hcopies, hgone⟩ := inPlaceStore_copy_removes
  have hfrom : inPlaceStore.pathOf ⟨"c", "s", none⟩ = .ok "/r/c/s" := by decide
  have hapart : inPlaceStore.pathOf ⟨"c", "s", none⟩ ≠ inPlaceStore.pathOf ⟨"c", "k", none⟩ := by
    decide
  have hthere : twoObjects.contentAt "/r/c/k" = some [0] := by decide
  refine ⟨calls, e, fs', hcopies, hgone, ?_⟩
  rcases (copy_outcome (fun _ => hapart) hcopies).2 e rfl with
    hsame | ⟨fromPath, toPath, hfrom', hto', hleft, -⟩
  · have hkept := hsame "/r/c/k"
    rw [hgone, hthere] at hkept
    cases hkept
  · obtain rfl := Except.ok.inj (hfrom.symm.trans hfrom')
    obtain rfl := Except.ok.inj (inPlaceStore_pathOf.symm.trans hto')
    exact hleft

end Broken

end FileService.Posix
