import FileService.Grpc.UploadSource
import FileService.Interaction.Embedding
import FileService.Posix.PutAtomicity

/-!
# Uploads that break off

A put reads the stream piece by piece. When the stream fails it commits nothing:
it renames nothing, it hands nothing to a batch, and the file it was writing is
closed and unlinked.
-/
namespace FileService.Grpc
open FileService.Common FileService.Domain FileService.Interaction FileService.Posix
open FileService.Streams

/-- `kIoBufferBytes` -/
def ioBufferBytes : Nat := 64 * 1024

/-! ## Puts of a stream that fails -/

/-- The calls that make an object visible under its name. -/
def Commits : Call → Prop
  | .rename .. => True
  | .enterBatch _ => True
  | _ => False

/-- The file has been opened to be written. -/
def Opens (o : Occurrence posix) (target : String) (file : Handle) : Prop :=
  o = ⟨.openExclusive target, .ok file⟩ ∨ o = ⟨.openTruncated target, .ok file⟩

/-- Nothing is committed, and a file that has been opened to be written is closed and unlinked
in the end. -/
structure Discarded (calls : Trace posix) : Prop where
  uncommitted : ∀ o ∈ calls, ¬Commits o.op
  dropped : ∀ o ∈ calls, ∀ target file, Opens o target file →
    ∃ before closed unlinked, calls = before ++ [⟨.close file, closed⟩, ⟨.unlink target, unlinked⟩]

section Puts
variable {store : PosixBlobStore} {file : Handle} {tmp : String} {e : Error} {t : Trace posix}
variable {pieces : List Bytes}

theorem not_commits_of_isQuiet {call : Call} (h : isQuiet call = true) : ¬Commits call := by
  cases call <;> simp_all [isQuiet, Commits]

theorem not_opens_of_isQuiet {o : Occurrence posix} {target : String} (h : isQuiet o.op = true) :
    ¬Opens o target file := by
  rintro (rfl | rfl) <;> cases h

theorem discarded_of_isQuiet (h : ∀ o ∈ t, isQuiet o.op = true) : Discarded t where
  uncommitted o ho := not_commits_of_isQuiet (h o ho)
  dropped o ho _ _ hopens := absurd hopens (not_opens_of_isQuiet (h o ho))

/-- Calls that open nothing may come before. -/
theorem Discarded.after {before : Trace posix} (h : Discarded t)
    (hbefore : ∀ o ∈ before, isQuiet o.op = true) : Discarded (before ++ t) where
  uncommitted := List.forall_mem_append.mpr
    ⟨fun o ho => not_commits_of_isQuiet (hbefore o ho), h.uncommitted⟩
  dropped := by
    intro o ho target file hopens
    rcases List.mem_append.mp ho with ho | ho
    · exact absurd hopens (not_opens_of_isQuiet (hbefore o ho))
    · obtain ⟨middle, closed, unlinked, rfl⟩ := h.dropped o ho target file hopens
      exact ⟨before ++ middle, closed, unlinked, (List.append_assoc ..).symm⟩

/-- What the loop of a put does with the file once the stream fails. -/
theorem receive_fails {received : Bytes} {out : Result Bytes} (hpieces : ∀ piece ∈ pieces, piece ≠ [])
    (h : (ExceptT.run (PosixBlobStore.receive file tmp (some e) pieces received)).Emits t out) :
    (∃ e', out = .error e') ∧ ∃ writes closed unlinked,
      t = writes ++ [⟨.close file, closed⟩, ⟨.unlink tmp, unlinked⟩] ∧
      ∀ o ∈ writes, ∃ data, o.op = .writeAll file data := by
  induction pieces generalizing received t with
  | nil =>
    obtain ⟨closed, -, rfl, unlinked, -, rfl, rfl, rfl⟩ := h
    exact ⟨⟨e, rfl⟩, [], closed, unlinked, rfl, by simp⟩
  | cons piece pieces ih =>
    rw [PosixBlobStore.receive, if_neg (hpieces piece (by simp))] at h
    obtain ⟨r, rest, rfl, hrest⟩ := h
    cases r with
    | error failure =>
      obtain ⟨closed, -, rfl, unlinked, -, rfl, rfl, rfl⟩ := hrest
      exact ⟨⟨_, rfl⟩, [_], closed, unlinked, rfl, by simp⟩
    | ok u =>
      obtain ⟨hfailed, writes, closed, unlinked, rfl, hwrites⟩ :=
        ih (fun p hp => hpieces p (by simp [hp])) hrest
      exact ⟨hfailed, _ :: writes, closed, unlinked, rfl, by simpa using hwrites⟩

theorem openTarget_emits {out : Result (Sys Handle)}
    (h : (ExceptT.run (store.openTarget tmp)).Emits t out) :
    ∃ opened, out = .ok opened ∧
      (t = [⟨.openExclusive tmp, opened⟩] ∨ t = [⟨.openTruncated tmp, opened⟩]) := by
  unfold PosixBlobStore.openTarget at h
  split_ifs at h
  · obtain ⟨opened, rest, rfl, rfl, rfl⟩ := h
    exact ⟨opened, rfl, .inl rfl⟩
  · obtain ⟨opened, rest, rfl, rfl, rfl⟩ := h
    exact ⟨opened, rfl, .inr rfl⟩

theorem discarded_unopened {failure : Failure}
    (hopening : t = [⟨.openExclusive tmp, .error failure⟩] ∨ t = [⟨.openTruncated tmp, .error failure⟩]) :
    Discarded t where
  uncommitted := by
    rcases hopening with rfl | rfl <;> simp [Commits]
  dropped := by
    rintro o ho target file (rfl | rfl) <;> rcases hopening with rfl | rfl <;> simp at ho

theorem discarded_opened {opening writes : Trace posix} {closed unlinked : Sys Unit}
    (hopening : opening = [⟨.openExclusive tmp, .ok file⟩] ∨ opening = [⟨.openTruncated tmp, .ok file⟩])
    (hwrites : ∀ o ∈ writes, ∃ data, o.op = .writeAll file data) :
    Discarded (opening ++ (writes ++ [⟨.close file, closed⟩, ⟨.unlink tmp, unlinked⟩])) where
  uncommitted := by
    have hwritten : ∀ o ∈ writes, ¬Commits o.op := by
      intro o ho
      obtain ⟨data, hdata⟩ := hwrites o ho
      simp [hdata, Commits]
    rcases hopening with rfl | rfl <;> simpa [Commits, or_imp, forall_and] using hwritten
  dropped := by
    intro o ho target file' hopens
    have hfirst : o ∈ opening := by
      rcases List.mem_append.mp ho with ho | ho
      · exact ho
      · rcases List.mem_append.mp ho with ho | ho
        · obtain ⟨data, hdata⟩ := hwrites o ho
          rcases hopens with rfl | rfl <;> cases hdata
        · rcases hopens with rfl | rfl <;> simp at ho
    have hsame : target = tmp ∧ file' = file := by
      rcases hopening with rfl | rfl <;> rcases hopens with rfl | rfl <;> simp_all
    obtain ⟨rfl, rfl⟩ := hsame
    exact ⟨opening ++ writes, closed, unlinked, (List.append_assoc ..).symm⟩

theorem targetOf_quiet {path : String} {out : Result String}
    (h : (ExceptT.run (store.targetOf path)).Emits t out) : ∀ o ∈ t, isQuiet o.op = true := by
  unfold PosixBlobStore.targetOf at h
  split_ifs at h
  · have huses := @tempPathFor_uses store (fun call => isQuiet call = true) path rfl
    exact (huses.emitted h).1
  · obtain ⟨rfl, -⟩ := h
    simp

theorem putAt_discards {path : String} {options : PutOptions} {out : Result Unit}
    (hpieces : ∀ piece ∈ pieces, piece ≠ [])
    (h : (ExceptT.run (store.putAt path ⟨pieces, some e⟩ options)).Emits t out) :
    (∃ e', out = .error e') ∧ Discarded t := by
  obtain ⟨before, target, after, rfl, htarget, hrest⟩ := Action.emits_run_bind.mp h
  have hquiet := targetOf_quiet htarget
  suffices hafter : (∃ e', out = .error e') ∧ Discarded after from
    ⟨hafter.1, hafter.2.after hquiet⟩
  cases target with
  | error e' =>
    obtain ⟨rfl, rfl⟩ := hrest
    exact ⟨⟨e', rfl⟩, discarded_of_isQuiet (by simp)⟩
  | ok tmp =>
    obtain ⟨opening, opened, after, rfl, hopen, hrest⟩ := Action.emits_run_bind.mp hrest
    obtain ⟨opened, rfl, hopening⟩ := openTarget_emits hopen
    cases opened with
    | error failure =>
      obtain ⟨rfl, rfl⟩ := hrest
      exact ⟨⟨_, rfl⟩, by simpa using discarded_unopened hopening⟩
    | ok file =>
      obtain ⟨writing, data, after, rfl, hwrite, hrest⟩ := Action.emits_run_bind.mp hrest
      obtain ⟨receiving, received, after', rfl, hreceive, hchecks⟩ := Action.emits_run_bind.mp hwrite
      obtain ⟨⟨e', rfl⟩, writes, closed, unlinked, rfl, hwrites⟩ := receive_fails hpieces hreceive
      obtain ⟨rfl, rfl⟩ := hchecks
      obtain ⟨rfl, rfl⟩ := hrest
      exact ⟨⟨_, rfl⟩, by simpa using discarded_opened hopening hwrites⟩

/-- A put of a stream that fails fails, and commits nothing. -/
theorem put_discards {ref : ObjectRef} {options : PutOptions} {out : Result Unit}
    (hpieces : ∀ piece ∈ pieces, piece ≠ [])
    (h : (ExceptT.run (store.put ref ⟨pieces, some e⟩ options)).Emits t out) :
    (∃ e', out = .error e') ∧ Discarded t := by
  obtain ⟨before, found, after, rfl, hfind, hput⟩ := Action.emits_run_bind.mp h
  have hquiet := (writableObjectPath_uses (K := fun call => isQuiet call = true) fun _ hcall => hcall).emitted hfind
  cases found with
  | error e' =>
    obtain ⟨rfl, rfl⟩ := hput
    exact ⟨⟨e', rfl⟩, by simpa using discarded_of_isQuiet hquiet.1⟩
  | ok path =>
    obtain ⟨hfailed, hdiscarded⟩ := putAt_discards hpieces hput
    exact ⟨hfailed, hdiscarded.after hquiet.1⟩

end Puts

/-! ## Uploads -/

section Uploads
open GrpcUploadSource
variable {messages : List UploadFileRequest}

/-- What the source of an upload holds before anything has been read. -/
theorem stream_start (messages : List UploadFileRequest) (cancelled : Bool) :
    stream.rest { messages, cancelled } = (scan cancelled false messages).1 ∧
      stream.failure { messages, cancelled } = (scan cancelled false messages).2 := by
  constructor <;> rfl

theorem stream_complete (cancelled : Bool) (h : Complete messages) :
    stream.rest { messages, cancelled } = chunkBytes messages ∧
      stream.failure { messages, cancelled } = none := by
  obtain ⟨hrest, hfailure⟩ := stream_start messages cancelled
  rw [hrest, hfailure]
  exact ⟨scan_complete h, scan_end.mpr h⟩

/-- Every run of reads hands over a first part of the bytes of the chunks, and ends well only
when they have all come and nothing but end marks was left; given enough reads it ends, with an
error if the stream is not complete, and a put then commits nothing. -/
theorem uploads_are_never_truncated (messages : List UploadFileRequest) (cancelled : Bool) :
    (∀ capacities, (∀ c ∈ capacities, 0 < c) →
      (stream.drain capacities { messages, cancelled }).1 <+: chunkBytes messages ∧
      ((stream.drain capacities { messages, cancelled }).2 = .finished →
        Complete messages ∧
        (stream.drain capacities { messages, cancelled }).1 = chunkBytes messages) ∧
      ((chunkBytes messages).length < capacities.length →
        (stream.drain capacities { messages, cancelled }).2 = .finished ∨
        ∃ e, (stream.drain capacities { messages, cancelled }).2 = .failed e)) ∧
    ∀ pieces failure, stream.Presents ioBufferBytes { messages, cancelled } pieces failure →
      (Complete messages → failure = none ∧ pieces.flatten = chunkBytes messages) ∧
      (¬Complete messages → ∀ (store : PosixBlobStore) ref options calls out,
        (ExceptT.run (store.put ref ⟨pieces, failure⟩ options)).Emits calls out →
          (∃ e, out = .error e) ∧ Discarded calls) := by
  obtain ⟨hstart, hends⟩ := stream_start messages cancelled
  constructor
  · intro capacities hcapacities
    have hdrained := drained stream { messages, cancelled } hcapacities
    have hpart : (stream.drain capacities { messages, cancelled }).1 <+: chunkBytes messages :=
      hdrained.part.trans (hstart ▸ scan_part)
    refine ⟨hpart, ?_, ?_⟩
    · intro hfinished
      obtain ⟨hall, hnone⟩ := hdrained.finished hfinished
      have hcomplete : Complete messages := scan_end.mp (hends ▸ hnone)
      exact ⟨hcomplete, hall.trans (stream_complete cancelled hcomplete).1⟩
    · intro hmany
      cases hverdict : (stream.drain capacities { messages, cancelled }).2 with
      | finished => exact .inl rfl
      | failed e => exact .inr ⟨e, rfl⟩
      | unfinished =>
        have hfew := hdrained.unfinished hverdict
        have hle := hpart.length_le
        omega
  · intro pieces failure hpresents
    obtain ⟨hflat, hfailure, hpieces⟩ := presents_stream hpresents (by decide)
    constructor
    · intro hcomplete
      obtain ⟨hall, hnone⟩ := stream_complete cancelled hcomplete
      exact ⟨hfailure.trans hnone, hflat.trans hall⟩
    · intro hincomplete store ref options calls out hput
      cases failure with
      | none => exact absurd (scan_end.mp (hends ▸ hfailure.symm)) hincomplete
      | some e => exact put_discards hpieces hput

/-- An upload that is cut off after its first chunk. -/
theorem cut_upload_fails : ∃ e,
    (stream.drain [1, 1, 4] { messages := [.chunk [7, 8]], cancelled := true }).2 = .failed e := by
  obtain ⟨hruns, -⟩ := uploads_are_never_truncated [.chunk [7, 8]] true
  obtain ⟨-, hfinished, hends⟩ := hruns [1, 1, 4] (by decide)
  rcases hends (by decide) with h | h
  · exact absurd (hfinished h).1 (by simp [Complete])
  · exact h

end Uploads

end FileService.Grpc
