import FileService.Posix.ObjectReads

/-!
# A put that fails too late

A put that fails after it published the object has lost what was there. The same
calls with the same replies are possible whatever the object held before, and
they leave the same files.
-/
namespace FileService.Posix
open FileService.Common FileService.Domain FileService.Interaction

/-! ## A file that nobody reads -/

namespace FileSystem
variable {fs fs' : FileSystem} {i : Nat} {data bytes : Bytes} {path tmp target : String}
variable {h : Handle}

attribute [ext] FileSystem

@[simp] theorem names_setData : (fs.setData i data).names = fs.names := rfl

@[simp] theorem handles_setData : (fs.setData i data).handles = fs.handles := rfl

@[simp] theorem next_setData : (fs.setData i data).next = fs.next := rfl

@[simp] theorem nextHandle_setData : (fs.setData i data).nextHandle = fs.nextHandle := rfl

theorem create_setData (hi : i < fs.next) :
    (fs.setData i data).create path = (fs.create path).setData i data := by
  ext1 <;> try rfl
  exact (Function.update_comm (Nat.ne_of_lt hi).symm [] data fs.data).symm

theorem openTruncated_of_some {j : Nat} (hj : fs.names path = some j) :
    fs.openTruncated path = (fs.setData j []).reopen j (fs.named hj) := by
  unfold openTruncated
  split
  · next k hk =>
    obtain rfl : k = j := Option.some.inj (hk.symm.trans hj)
    rfl
  · next hnone => exact absurd (hnone.symm.trans hj) (by simp)

theorem openTruncated_of_none (hnone : fs.names path = none) :
    fs.openTruncated path = fs.create path := by
  unfold openTruncated
  split
  · next k hk => exact absurd (hnone.symm.trans hk) (by simp)
  · rfl

theorem openTruncated_setData (hi : i < fs.next) (hpath : fs.names path ≠ some i) :
    (fs.setData i data).openTruncated path = (fs.openTruncated path).setData i data := by
  cases hj : fs.names path with
  | none =>
    have hj' : (fs.setData i data).names path = none := hj
    rw [openTruncated_of_none hj, openTruncated_of_none hj', create_setData hi]
  | some j =>
    have hj' : (fs.setData i data).names path = some j := hj
    have hne : i ≠ j := fun heq => hpath (heq ▸ hj)
    rw [openTruncated_of_some hj, openTruncated_of_some hj']
    ext1 <;> try rfl
    exact Function.update_comm hne data [] fs.data

theorem write_of_some {j offset : Nat} (hh : fs.handles h = some (j, offset)) :
    (fs.write h bytes).data = Function.update fs.data j (overwrite (fs.data j) offset bytes) ∧
      (fs.write h bytes).handles =
        Function.update fs.handles h (some (j, offset + bytes.length)) := by
  unfold write
  split
  · next hnone => exact absurd (hnone.symm.trans hh) (by simp)
  · next k o hk =>
    have hsame := hk.symm.trans hh
    rw [Option.some.injEq, Prod.mk.injEq] at hsame
    obtain ⟨rfl, rfl⟩ := hsame
    exact ⟨rfl, rfl⟩

theorem write_of_none (hnone : fs.handles h = none) : fs.write h bytes = fs := by
  unfold write
  split
  · rfl
  · next k o hk => exact absurd (hnone.symm.trans hk) (by simp)

@[simp] theorem next_write : (fs.write h bytes).next = fs.next := by
  unfold write
  split <;> rfl

@[simp] theorem nextHandle_write : (fs.write h bytes).nextHandle = fs.nextHandle := by
  unfold write
  split <;> rfl

theorem write_setData (hclosed : ∀ offset, fs.handles h ≠ some (i, offset)) :
    (fs.setData i data).write h bytes = (fs.write h bytes).setData i data := by
  cases hj : fs.handles h with
  | none =>
    have hj' : (fs.setData i data).handles h = none := hj
    rw [write_of_none hj, write_of_none hj']
  | some open? =>
    obtain ⟨j, offset⟩ := open?
    have hj' : (fs.setData i data).handles h = some (j, offset) := hj
    have hne : i ≠ j := by
      rintro rfl
      exact hclosed offset hj
    ext1
    · simp
    · rw [(write_of_some hj').1]
      change Function.update (Function.update fs.data i data) j
        (overwrite (Function.update fs.data i data j) offset bytes) =
          Function.update (fs.write h bytes).data i data
      rw [(write_of_some hj).1, Function.update_of_ne hne.symm]
      exact Function.update_comm hne data _ fs.data
    · simp
    · exact (write_of_some hj').2.trans (write_of_some hj).2.symm
    · simp

theorem rename_setData :
    (fs.setData i data).rename tmp target = (fs.rename tmp target).setData i data := by
  unfold rename
  split <;> rfl

end FileSystem

/-- The call on files neither reads one nor takes the object away. -/
def Blind (path : String) : Call → Prop
  | .openTruncated target => target ≠ path
  | .rename source _ => source ≠ path
  | .unlink target => target ≠ path
  | .openRead _ => False
  | .copyFd .. => False
  | .fstat _ => False
  | .pread .. => False
  | .stat _ => False
  | .readFile _ => False
  | call => isFileCall call = true

theorem isFileCall_of_blind {path : String} {call : Call} (h : Blind path call) :
    isFileCall call = true := by
  cases call <;> first | exact h | rfl

theorem blind_of_isQuiet {path : String} {call : Call} (h : isQuiet call = true) :
    Blind path call := by
  cases call <;> first | rfl | cases h

section Hidden
variable {path : String} {i : Nat} {data : Bytes} {calls : Trace posix} {fs fs' : FileSystem}
variable {op : Call} {r : op.Reply}

/-- Nobody has the file open, and it has no name but the object's, until the object is
published. -/
structure Hidden (path : String) (i : Nat) (calls : Trace posix) (fs : FileSystem) : Prop where
  made : i < fs.next
  closed : ∀ h offset, fs.handles h ≠ some (i, offset)
  named : ∀ name, fs.names name = some i → name = path ∧ ¬Published path calls

theorem published_append_singleton :
    Published path (calls ++ [⟨op, r⟩]) ↔ Published path calls ∨ publishes path ⟨op, r⟩ := by
  simp [Published, or_and_right, exists_or]

/-- The name that a step leaves to the file is an old one. -/
theorem Hidden.step (h : Hidden path i calls fs) (hnext : fs.next ≤ fs'.next)
    (hclosed : ∀ file offset, fs'.handles file = some (i, offset) → ∃ file offset,
      fs.handles file = some (i, offset))
    (hnamed : ∀ name, fs'.names name = some i → fs.names name = some i ∧
      ¬publishes path ⟨op, r⟩) : Hidden path i (calls ++ [⟨op, r⟩]) fs' where
  made := h.made.trans_le hnext
  closed := by
    intro file offset hopen
    obtain ⟨file, offset, hopen⟩ := hclosed file offset hopen
    exact h.closed file offset hopen
  named := by
    intro name hname
    obtain ⟨hold, hpub⟩ := hnamed name hname
    obtain ⟨rfl, hnot⟩ := h.named name hold
    exact ⟨rfl, fun hnow => (published_append_singleton.mp hnow).elim hnot hpub⟩

theorem Hidden.create {target : String} (h : Hidden path i calls fs)
    (hpub : ¬publishes path ⟨op, r⟩) : Hidden path i (calls ++ [⟨op, r⟩]) (fs.create target) := by
  have hne : fs.next ≠ i := (Nat.ne_of_lt h.made).symm
  refine h.step (Nat.le_succ _) (fun file offset hopen => ?_) fun name hname => ⟨?_, hpub⟩
  · by_cases hnew : file = fs.nextHandle
    · subst hnew
      simp [FileSystem.create, hne] at hopen
    · exact ⟨file, offset, by simpa [FileSystem.create, hnew] using hopen⟩
  · by_cases hnew : name = target
    · subst hnew
      simp [FileSystem.create, hne] at hname
    · simpa [FileSystem.create, hnew] using hname

theorem Hidden.reopen {j : Nat} {hj : j < fs.next} (h : Hidden path i calls fs) (hne : j ≠ i)
    (hpub : ¬publishes path ⟨op, r⟩) : Hidden path i (calls ++ [⟨op, r⟩]) (fs.reopen j hj) := by
  refine h.step le_rfl (fun file offset hopen => ?_) fun name hname => ⟨hname, hpub⟩
  by_cases hnew : file = fs.nextHandle
  · subst hnew
    simp [FileSystem.reopen, hne] at hopen
  · exact ⟨file, offset, by simpa [FileSystem.reopen, hnew] using hopen⟩

theorem Hidden.write {file : Handle} {bytes : Bytes} (h : Hidden path i calls fs)
    (hpub : ¬publishes path ⟨op, r⟩) :
    Hidden path i (calls ++ [⟨op, r⟩]) (fs.write file bytes) := by
  refine h.step (by simp) (fun other offset hopen => ?_) fun name hname => ⟨by simpa using hname, hpub⟩
  cases hfile : fs.handles file with
  | none =>
    rw [FileSystem.write_of_none hfile] at hopen
    exact ⟨other, offset, hopen⟩
  | some open? =>
    obtain ⟨j, start⟩ := open?
    rw [(FileSystem.write_of_some hfile).2] at hopen
    by_cases hsame : other = file
    · subst hsame
      rw [Function.update_self, Option.some.injEq, Prod.mk.injEq] at hopen
      exact ⟨other, start, hopen.1 ▸ hfile⟩
    · rw [Function.update_of_ne hsame] at hopen
      exact ⟨other, offset, hopen⟩

theorem Hidden.close {file : Handle} (h : Hidden path i calls fs) (hpub : ¬publishes path ⟨op, r⟩) :
    Hidden path i (calls ++ [⟨op, r⟩]) (fs.close file) := by
  refine h.step le_rfl (fun other offset hopen => ?_) fun name hname => ⟨hname, hpub⟩
  by_cases hsame : other = file
  · subst hsame
    simp [FileSystem.close] at hopen
  · exact ⟨other, offset, by simpa [FileSystem.close, hsame] using hopen⟩

theorem Hidden.unlink {target : String} (h : Hidden path i calls fs)
    (hpub : ¬publishes path ⟨op, r⟩) : Hidden path i (calls ++ [⟨op, r⟩]) (fs.unlink target) := by
  refine h.step le_rfl (fun file offset hopen => ⟨file, offset, hopen⟩) fun name hname => ⟨?_, hpub⟩
  by_cases hsame : name = target
  · subst hsame
    simp [FileSystem.unlink] at hname
  · simpa [FileSystem.unlink, hsame] using hname

/-- The object's old file has no name once another file is renamed onto the object. -/
theorem Hidden.rename {tmp target : String} {u : Unit} (h : Hidden path i calls fs)
    (htmp : tmp ≠ path) :
    Hidden path i (calls ++ [⟨.rename tmp target, .ok u⟩]) (fs.rename tmp target) := by
  unfold FileSystem.rename
  split
  · next hsame =>
    refine h.step le_rfl (fun file offset hopen => ⟨file, offset, hopen⟩) fun name hname => ⟨hname, ?_⟩
    rintro rfl
    exact htmp hsame
  · refine h.step le_rfl (fun file offset hopen => ⟨file, offset, hopen⟩) fun name hname => ?_
    change Function.update (Function.update fs.names target (fs.names tmp)) tmp none name =
      some i at hname
    by_cases hsource : name = tmp
    · subst hsource
      simp at hname
    rw [Function.update_of_ne hsource] at hname
    by_cases htarget : name = target
    · subst htarget
      rw [Function.update_self] at hname
      exact absurd (h.named tmp hname).1 htmp
    · rw [Function.update_of_ne htarget] at hname
      refine ⟨hname, ?_⟩
      rintro rfl
      exact htarget (h.named name hname).1

theorem Hidden.same (h : Hidden path i calls fs) (hpub : ¬publishes path ⟨op, r⟩) :
    Hidden path i (calls ++ [⟨op, r⟩]) fs :=
  h.step le_rfl (fun file offset hopen => ⟨file, offset, hopen⟩) fun _ hname => ⟨hname, hpub⟩

theorem Hidden.setData {j : Nat} {bytes : Bytes} (h : Hidden path i calls fs) :
    Hidden path i calls (fs.setData j bytes) :=
  ⟨h.made, h.closed, h.named⟩

theorem Hidden.openTruncated {target : String} (h : Hidden path i calls fs) (htarget : target ≠ path)
    (hpub : ¬publishes path ⟨op, r⟩) :
    Hidden path i (calls ++ [⟨op, r⟩]) (fs.openTruncated target) := by
  cases hj : fs.names target with
  | none => exact FileSystem.openTruncated_of_none hj ▸ h.create hpub
  | some j =>
    rw [FileSystem.openTruncated_of_some hj]
    refine h.setData.reopen ?_ hpub
    rintro rfl
    exact htarget (h.named target hj).1

/-- A blind call can be made whatever the hidden file holds. -/
theorem Hidden.does (h : Hidden path i calls fs) (hop : Blind path op) (hdoes : fs.Does op r fs') :
    (fs.setData i data).Does op r (fs'.setData i data) ∧
      Hidden path i (calls ++ [⟨op, r⟩]) fs' := by
  have hunchanged : fs' = fs → ¬publishes path ⟨op, r⟩ →
      fs'.setData i data = fs.setData i data ∧ Hidden path i (calls ++ [⟨op, r⟩]) fs' := by
    rintro rfl hpub
    exact ⟨rfl, h.same hpub⟩
  cases op with
  | openExclusive target =>
    cases r with
    | error failure => exact hunchanged hdoes id
    | ok file =>
      obtain ⟨hfree, rfl, rfl⟩ := hdoes
      exact ⟨⟨hfree, rfl, (FileSystem.create_setData h.made).symm⟩, h.create id⟩
  | openTruncated target =>
    cases r with
    | error failure => exact hunchanged hdoes id
    | ok file =>
      obtain ⟨rfl, rfl⟩ := hdoes
      have hother : fs.names target ≠ some i := fun hname => hop (h.named target hname).1
      exact ⟨⟨rfl, (FileSystem.openTruncated_setData h.made hother).symm⟩, h.openTruncated hop hop⟩
  | openDirectory target =>
    cases r with
    | error failure => exact hunchanged hdoes id
    | ok file =>
      obtain ⟨rfl, rfl⟩ := hdoes
      exact ⟨⟨rfl, rfl⟩, h.step le_rfl (fun file offset hopen => ⟨file, offset, hopen⟩)
        fun _ hname => ⟨hname, id⟩⟩
  | writeAll file bytes =>
    cases r with
    | ok u =>
      obtain ⟨hopen, rfl⟩ := hdoes
      exact ⟨⟨hopen, (FileSystem.write_setData (h.closed file)).symm⟩, h.write id⟩
    | error failure =>
      obtain ⟨n, rfl⟩ := hdoes
      exact ⟨⟨n, (FileSystem.write_setData (h.closed file)).symm⟩, h.write id⟩
  | close file =>
    obtain rfl : fs' = fs.close file := hdoes
    exact ⟨rfl, h.close id⟩
  | rename tmp target =>
    cases r with
    | error failure => exact hunchanged hdoes id
    | ok u =>
      obtain ⟨hsome, rfl⟩ := hdoes
      exact ⟨⟨hsome, FileSystem.rename_setData.symm⟩, h.rename hop⟩
  | unlink target =>
    cases r with
    | ok u =>
      obtain ⟨hsome, rfl⟩ := hdoes
      exact ⟨⟨hsome, rfl⟩, h.unlink id⟩
    | error failure =>
      obtain ⟨hfree, rfl⟩ := hdoes
      exact ⟨⟨hfree, rfl⟩, h.same id⟩
  | openRead target => exact hop.elim
  | copyFd source target => exact hop.elim
  | fstat file => exact hop.elim
  | pread file offset count => exact hop.elim
  | stat target => exact hop.elim
  | readFile target => exact hop.elim
  | _ => exact hunchanged hdoes id

/-- An object that is published is there as long as the calls are blind. -/
theorem named_of_blind (hop : Blind path op) (hdoes : fs.Does op r fs')
    (h : (fs.names path).isSome ∨ publishes path ⟨op, r⟩) : (fs'.names path).isSome := by
  have hunchanged : fs' = fs → ¬publishes path ⟨op, r⟩ → (fs'.names path).isSome := by
    rintro rfl hpub
    exact h.resolve_right hpub
  have hcreate : ∀ {target}, (fs.names path).isSome → ((fs.create target).names path).isSome := by
    intro target hold
    by_cases hsame : path = target
    · subst hsame
      simp [FileSystem.create]
    · rwa [FileSystem.names_create_of_ne hsame]
  cases op with
  | openExclusive target =>
    cases r with
    | error failure => exact hunchanged hdoes id
    | ok file =>
      obtain ⟨-, -, rfl⟩ := hdoes
      exact hcreate (h.resolve_right id)
  | openTruncated target =>
    cases r with
    | error failure => exact hunchanged hdoes id
    | ok file =>
      obtain ⟨-, rfl⟩ := hdoes
      have hold := h.resolve_right hop
      cases hj : fs.names target with
      | none => exact FileSystem.openTruncated_of_none hj ▸ hcreate hold
      | some j => exact FileSystem.openTruncated_of_some hj ▸ hold
  | openDirectory target =>
    cases r with
    | error failure => exact hunchanged hdoes id
    | ok file =>
      obtain ⟨-, rfl⟩ := hdoes
      exact h.resolve_right id
  | writeAll file bytes =>
    have hwrote : ∃ bytes, fs' = fs.write file bytes := by
      cases r with
      | ok u => exact ⟨_, hdoes.2⟩
      | error failure =>
        obtain ⟨n, hn⟩ := hdoes
        exact ⟨_, hn⟩
    obtain ⟨bytes, rfl⟩ := hwrote
    rw [FileSystem.names_write]
    exact h.resolve_right id
  | close file =>
    obtain rfl : fs' = fs.close file := hdoes
    exact h.resolve_right id
  | rename tmp target =>
    cases r with
    | error failure => exact hunchanged hdoes id
    | ok u =>
      obtain ⟨hsome, rfl⟩ := hdoes
      by_cases htarget : path = target
      · subst htarget
        unfold FileSystem.rename
        split
        · next hsame => exact absurd hsame hop
        · simpa [Ne.symm hop] using hsome
      · have hold := h.resolve_right (Ne.symm htarget)
        rwa [FileSystem.names_rename_of_ne (Ne.symm hop) htarget]
  | unlink target =>
    cases r with
    | ok u =>
      obtain ⟨-, rfl⟩ := hdoes
      have hold := h.resolve_right id
      simpa [FileSystem.unlink, Ne.symm hop] using hold
    | error failure => exact hunchanged hdoes.2 id
  | openRead target => exact hop.elim
  | copyFd source target => exact hop.elim
  | fstat file => exact hop.elim
  | pread file offset count => exact hop.elim
  | stat target => exact hop.elim
  | readFile target => exact hop.elim
  | _ => exact hunchanged hdoes id

end Hidden

/-! ## The same calls on other files -/

section Retold
variable {syncDir : Bool} {path : String} {i : Nat} {data : Bytes} {s s' s₁ : Session}
variable {op : Call} {r : op.Reply} {α : Type} {p : Program posix α} {a : α}
variable {t : List (Performed posix Session)}

def AllBlind (path : String) (s : Session) : Prop := ∀ o ∈ s.calls, Blind path o.op

/-- The session with other bytes in the hidden file. -/
def Retold (path : String) (i : Nat) (data : Bytes) (s s₁ : Session) : Prop :=
  s₁ = { s with files := s.files.setData i data } ∧ Hidden path i s.calls s.files

theorem AllBlind.fileActs (h : AllBlind path s') (hacts : FileActs s op r s') :
    AllBlind path s ∧ Blind path op := by
  rw [AllBlind, hacts.2.2] at h
  exact ⟨fun o ho => h o (List.mem_append_left _ ho),
    h _ (List.mem_append_right _ (List.mem_singleton_self _))⟩

theorem AllBlind.performs (h : AllBlind path s') (hperforms : p.Performs FileActs s t a s') :
    AllBlind path s ∧ ∀ call ∈ t, AllBlind path call.after :=
  hperforms.holds_before (fun _ _ _ _ hacts hafter => (hafter.fileActs hacts).1) h

theorem AllBlind.acts (h : AllBlind path s') (hacts : Acts syncDir s op r s') : AllBlind path s := by
  cases hop : isFileCall op with
  | true => exact (h.fileActs ((acts_of_isFileCall hop).mp hacts)).1
  | false =>
    cases op with
    | enterBatch renames =>
      obtain ⟨rfl, -⟩ := hacts
      exact h
    | awaitFull batch => exact hacts.1 ▸ h
    | awaitDone batch =>
      obtain ⟨entries, u, -, hcommit⟩ := hacts
      exact (h.performs hcommit).1
    | _ => cases hop

theorem Retold.fileActs (h : Retold path i data s s₁) (hblind : AllBlind path s')
    (hacts : FileActs s op r s') : ∃ s₁', FileActs s₁ op r s₁' ∧ Retold path i data s' s₁' := by
  obtain ⟨rfl, hidden⟩ := h
  obtain ⟨hdoes, hnext⟩ := hidden.does (hblind.fileActs hacts).2 hacts.1
  exact ⟨{ s' with files := s'.files.setData i data }, ⟨hdoes, hacts.2⟩, rfl, hacts.2.2 ▸ hnext⟩

theorem Retold.commit (h : Retold path i data s s₁) (hblind : AllBlind path s')
    (hperforms : p.Performs FileActs s t a s') :
    ∃ t₁ s₁', p.Performs FileActs s₁ t₁ a s₁' ∧ Retold path i data s' s₁' :=
  hperforms.simulate (fun call hcall _ hacts hbefore =>
    hbefore.fileActs ((hblind.performs hperforms).2 call hcall) hacts) h

theorem Retold.acts (h : Retold path i data s s₁) (hblind : AllBlind path s')
    (hacts : Acts syncDir s op r s') :
    ∃ s₁', Acts syncDir s₁ op r s₁' ∧ Retold path i data s' s₁' := by
  cases hop : isFileCall op with
  | true =>
    obtain ⟨s₁', hacts₁, hnext⟩ := h.fileActs hblind ((acts_of_isFileCall hop).mp hacts)
    exact ⟨s₁', (acts_of_isFileCall hop).mpr hacts₁, hnext⟩
  | false =>
    obtain ⟨rfl, hidden⟩ := h
    cases op with
    | enterBatch renames =>
      obtain ⟨rfl, hin⟩ := hacts
      exact ⟨_, ⟨rfl, hin⟩, rfl, hidden⟩
    | awaitFull batch =>
      obtain ⟨rfl, hin⟩ := hacts
      exact ⟨_, ⟨rfl, hin⟩, rfl, hidden⟩
    | awaitDone batch =>
      obtain ⟨entries, u, hin, hcommit⟩ := hacts
      have hretold : Retold path i data s { s with files := s.files.setData i data } := ⟨rfl, hidden⟩
      obtain ⟨u₁, s₁', hcommit₁, hnext⟩ := hretold.commit hblind hcommit
      exact ⟨s₁', ⟨entries, u₁, hin, hcommit₁⟩, hnext⟩
    | _ => cases hop

/-- The operation goes the same way whatever the object held before. -/
theorem Retold.performs (h : Retold path i data s s₁) (hblind : AllBlind path s')
    (hperforms : p.Performs (Acts syncDir) s t a s') :
    ∃ t₁ s₁', p.Performs (Acts syncDir) s₁ t₁ a s₁' ∧ Retold path i data s' s₁' := by
  have hall := (hperforms.holds_before (fun _ _ _ _ hacts hafter => hafter.acts hacts) hblind).2
  exact hperforms.simulate (fun call hcall _ hacts hbefore =>
    hbefore.acts (hall call hcall) hacts) h

/-- What was published is there. -/
def Standing (path : String) (s : Session) : Prop :=
  Published path s.calls → (s.files.names path).isSome

theorem Standing.fileActs (h : Standing path s) (hblind : AllBlind path s')
    (hacts : FileActs s op r s') : Standing path s' := by
  intro hpub
  rw [hacts.2.2, published_append_singleton] at hpub
  exact named_of_blind (hblind.fileActs hacts).2 hacts.1 (hpub.imp_left h)

theorem Standing.commit (h : Standing path s) (hblind : AllBlind path s')
    (hperforms : p.Performs FileActs s t a s') : Standing path s' :=
  hperforms.invariant (fun call hcall hacts hbefore =>
    hbefore.fileActs ((hblind.performs hperforms).2 call hcall) hacts) h

theorem Standing.acts (h : Standing path s) (hblind : AllBlind path s')
    (hacts : Acts syncDir s op r s') : Standing path s' := by
  cases hop : isFileCall op with
  | true => exact h.fileActs hblind ((acts_of_isFileCall hop).mp hacts)
  | false =>
    cases op with
    | enterBatch renames =>
      obtain ⟨rfl, -⟩ := hacts
      exact h
    | awaitFull batch => exact hacts.1 ▸ h
    | awaitDone batch =>
      obtain ⟨entries, u, -, hcommit⟩ := hacts
      exact h.commit hblind hcommit
    | _ => cases hop

theorem Standing.performs (h : Standing path s) (hblind : AllBlind path s')
    (hperforms : p.Performs (Acts syncDir) s t a s') : Standing path s' := by
  have hall := (hperforms.holds_before (fun _ _ _ _ hacts hafter => hafter.acts hacts) hblind).2
  exact hperforms.invariant (fun call hcall hacts hbefore =>
    hbefore.acts (hall call hcall) hacts) h

end Retold

end FileService.Posix
