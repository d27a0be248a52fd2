import FileService.Interaction.Embedding
import FileService.Posix.ObjectReads

/-!
# Reads into a sink

`PosixBlobStore::get` with the sink it writes to and with the turns of its loop.
What a run did is read off its trace: the files it opened and closed, and the
bytes the sink was given.
-/
namespace FileService.Posix.Delivery
open FileService.Common FileService.Domain FileService.Interaction

/-! ## The operation -/

/-- A call on files, or one on the sink. -/
inductive GetCall where
  | system (call : Call)
  | write (data : Bytes)
  | closeSink

abbrev GetCall.Reply : GetCall → Type
  | .system call => call.Reply
  | .write _ => Result Unit
  | .closeSink => Result Unit

abbrev delivering : Interface where
  Op := GetCall
  Reply := GetCall.Reply

/-- How a run leaves that returns no success; `reading` is a loop that has not ended in the
turns it was given. -/
inductive Exit where
  | failed (e : Error)
  | reading

abbrev GetAction (α : Type) := Interaction.Action delivering Exit α

variable {α : Type}

def ask (call : GetCall) : GetAction call.Reply := Interaction.Action.call (I := delivering) call

def tell (call : GetCall) : GetAction Unit := discard (ask call)

/-- `FSS_TRY` on a result. -/
def tryResult : Result α → GetAction α
  | .ok a => pure a
  | .error e => throw (.failed e)

/-- A part of the operation that makes calls on files only. -/
def onFiles (x : Attempt α) : GetAction α :=
  Interaction.Action.lift (x.run.translate (J := delivering) GetCall.system fun _ r => r) >>= tryResult

/-- `kIoBufferBytes` -/
def ioBufferBytes : Nat := 64 * 1024

def eintr : Errno := .other 4

/-- Close the file and report an error. -/
def closeAndFail (file : Handle) (e : Error) : GetAction α := do
  tell (.system (.close file))
  throw (.failed e)

/-- The loop from where `done` bytes were written; it returns how many there are at its end. -/
def readLoop (file : Handle) (offset count : Nat) : Nat → Nat → GetAction Nat
  | 0, _ => throw .reading
  | turns + 1, done =>
    if count ≤ done then return done
    else do
      match ← ask (.system (.pread file (offset + done) (min ioBufferBytes (count - done)))) with
      | .error failure =>
        if failure.errno = eintr then readLoop file offset count turns done
        else closeAndFail file (errFromErrno "pread 失败" failure)
      | .ok data =>
        -- the object was cut while it was read
        if data = [] then return done
        else do
          tryResult (← ask (.write data))
          readLoop file offset count turns (done + data.length)

/-- `get` from where the file is open. -/
def getFrom (file : Handle) (range : ByteRange) (turns : Nat) : GetAction Unit := do
  match ← ask (.system (.fstat file)) with
  | .error failure => closeAndFail file (errFromErrno "fstat 失败" failure)
  | .ok size =>
    match PosixBlobStore.rangeOf range size with
    | .error e => closeAndFail file e
    | .ok (offset, count) =>
      let _ ← readLoop file offset count turns 0
      tell (.system (.close file))
      tryResult (← ask .closeSink)

/-- `get`; the loop takes at most so many turns. -/
def get (store : PosixBlobStore) (turns : Nat) (ref : ObjectRef) (range : ByteRange) :
    GetAction Unit := do
  let path ← onFiles (store.objectPath ref.container ref.key)
  match ← ask (.system (.openRead path)) with
  | .error failure =>
    if failure.errno = .enoent then throw (.failed (err .notFound ("对象不存在：" ++ ref.toText)))
    else throw (.failed (errFromErrno "打开对象失败" failure))
  | .ok file => getFrom file range turns

/-! ## What a run did -/

abbrev Step := Occurrence delivering

/-- The file that a call opened. -/
def opened : Step → List Handle
  | ⟨.system (.openRead _), .ok file⟩ => [file]
  | ⟨.system (.openExclusive _), .ok file⟩ => [file]
  | ⟨.system (.openTruncated _), .ok file⟩ => [file]
  | ⟨.system (.openDirectory _), .ok file⟩ => [file]
  | _ => []

def closed : Step → List Handle
  | ⟨.system (.close file), _⟩ => [file]
  | _ => []

/-- The bytes that the sink was given. -/
def given : Step → Bytes
  | ⟨.write data, _⟩ => data
  | _ => []

def closesSink : Step → Bool
  | ⟨.closeSink, _⟩ => true
  | _ => false

/-- The sink refuses bytes. -/
def refuses : Step → Bool
  | ⟨.write _, .error _⟩ => true
  | _ => false

/-- A read finds the end of the file. -/
def findsEnd : Step → Bool
  | ⟨.system (.pread ..), .ok []⟩ => true
  | _ => false

def failsToClose : Step → Bool
  | ⟨.closeSink, .error _⟩ => true
  | _ => false

/-- The replies are those of a file that had these bytes when its size was taken and that may
have been cut since. -/
def Reads (object : Bytes) : Step → Prop
  | ⟨.system (.fstat _), .ok size⟩ => size = object.length
  | ⟨.system (.pread _ offset count), .ok data⟩ => data <+: (object.drop offset).take count
  | _ => True

/-- The part of an object that a range asks for, up to the end of the object. -/
def clamped (range : ByteRange) (object : Bytes) : Bytes :=
  if range.length = 0 then object.drop range.offset
  else (object.drop range.offset).take range.length

/-- A success has delivered the range and closed the sink once, and every file that was
opened was closed once. -/
structure Delivers (object : Bytes) (range : ByteRange) (t : Trace delivering)
    (out : Except Exit Unit) : Prop where
  bytes : out = .ok () → t.flatMap given = clamped range object
  sink : out = .ok () → t.countP closesSink = 1
  files : ∀ file ∈ t.flatMap opened, (t.flatMap closed).count file = 1

/-- The sink takes all it is given, and the file is not cut, unless the sink fails to close. -/
def Undisturbed (t : Trace delivering) : Prop :=
  t.any refuses = false ∧ (t.any findsEnd = true → t.any failsToClose = true)

/-! ## The loop -/

section Loop
variable {object : Bytes} {file : Handle} {offset count turns done : Nat} {t : Trace delivering}

/-- What the loop did by the time it ends. -/
structure Looped (object : Bytes) (file : Handle) (offset count done : Nat) (t : Trace delivering)
    (out : Except Exit Nat) : Prop where
  opens : t.flatMap opened = []
  keepsSink : t.countP closesSink = 0
  noClose : t.any failsToClose = false
  finished : ∀ d, out = .ok d → done ≤ d ∧ d ≤ count ∧ t.flatMap closed = [] ∧
    t.flatMap given = (object.drop (offset + done)).take (d - done) ∧ t.any refuses = false ∧
      (t.any findsEnd = true ↔ d < count)
  failed : ∀ e, out = .error e → t.any findsEnd = false ∧
    (t.any refuses = false → t.flatMap closed = [file]) ∧
      (t.any refuses = true → t.flatMap closed = [])

theorem length_of_read {data : Bytes} {n : Nat} (hsize : offset + count ≤ object.length)
    (hdone : done < count) (hdata : data <+: (object.drop (offset + done)).take n)
    (hn : n ≤ count - done) : done + data.length ≤ count := by
  have hlength := hdata.length_le
  simp only [List.length_take, List.length_drop] at hlength
  omega

theorem take_read {data : Bytes} {n d : Nat}
    (hdata : data <+: (object.drop (offset + done)).take n) (hd : done + data.length ≤ d) :
    data ++ (object.drop (offset + (done + data.length))).take (d - (done + data.length)) =
      (object.drop (offset + done)).take (d - done) := by
  have hwhole : data = (object.drop (offset + done)).take data.length :=
    List.prefix_iff_eq_take.mp (hdata.trans (List.take_prefix _ _))
  have hlater : object.drop (offset + (done + data.length)) =
      (object.drop (offset + done)).drop data.length := by
    rw [List.drop_drop, Nat.add_assoc]
  have hsplit : d - done = data.length + (d - (done + data.length)) := by omega
  rw [hsplit, List.take_add, ← hlater, ← hwhole]

theorem Looped.retried {out : Except Exit Nat} {start n : Nat} (failure : Failure)
    (h : Looped object file offset count done t out) :
    Looped object file offset count done (⟨.system (.pread file start n), .error failure⟩ :: t)
      out where
  opens := by simpa [opened] using h.opens
  keepsSink := by simpa [closesSink] using h.keepsSink
  noClose := by simpa [failsToClose] using h.noClose
  finished := by simpa [closed, given, refuses, findsEnd] using h.finished
  failed := by simpa [closed, refuses, findsEnd] using h.failed

theorem Looped.advanced {out : Except Exit Nat} {data : Bytes} {n : Nat}
    (h : Looped object file offset count (done + data.length) t out)
    (hdata : data <+: (object.drop (offset + done)).take n) (hsome : data ≠ []) :
    Looped object file offset count done
      (⟨.system (.pread file (offset + done) n), .ok data⟩ :: ⟨.write data, .ok ()⟩ :: t) out where
  opens := by simpa [opened] using h.opens
  keepsSink := by simpa [closesSink] using h.keepsSink
  noClose := by simpa [failsToClose] using h.noClose
  finished := by
    intro d hd
    obtain ⟨hstart, hend, hclosed, hgiven, hrefuses, hcut⟩ := h.finished d hd
    refine ⟨by omega, hend, by simpa [closed] using hclosed, ?_,
      by simpa [refuses] using hrefuses, by simpa [findsEnd, hsome] using hcut⟩
    rw [List.flatMap_cons, List.flatMap_cons, hgiven]
    exact take_read hdata hstart
  failed := by simpa [closed, refuses, findsEnd, hsome] using h.failed

/-- One turn of the loop, and the rest of its run. -/
inductive Turn (file : Handle) (offset count turns done : Nat) :
    Trace delivering → Except Exit Nat → Prop where
  | full (h : count ≤ done) : Turn file offset count turns done [] (.ok done)
  | retried {n : Nat} {rest : Trace delivering} {out : Except Exit Nat} (failure : Failure)
      (h : (ExceptT.run (readLoop file offset count turns done)).Emits rest out) :
      Turn file offset count turns done
        (⟨.system (.pread file (offset + done) n), .error failure⟩ :: rest) out
  | failed {n : Nat} (failure : Failure) (closing : Call.Reply (.close file)) (e : Error) :
      Turn file offset count turns done
        [⟨.system (.pread file (offset + done) n), .error failure⟩, ⟨.system (.close file), closing⟩]
        (.error (.failed e))
  | ended {n : Nat} (h : done < count) : Turn file offset count turns done
      [⟨.system (.pread file (offset + done) n), .ok []⟩] (.ok done)
  | refused {n : Nat} {data : Bytes} (e : Error) (h : data ≠ []) : Turn file offset count turns done
      [⟨.system (.pread file (offset + done) n), .ok data⟩, ⟨.write data, .error e⟩]
      (.error (.failed e))
  | advanced {n : Nat} {data : Bytes} {rest : Trace delivering} {out : Except Exit Nat}
      (hless : done < count) (hn : n ≤ count - done) (hsome : data ≠ [])
      (h : (ExceptT.run (readLoop file offset count turns (done + data.length))).Emits rest out) :
      Turn file offset count turns done
        (⟨.system (.pread file (offset + done) n), .ok data⟩ :: ⟨.write data, .ok ()⟩ :: rest) out

theorem turn_of_emits {out : Except Exit Nat}
    (h : (ExceptT.run (readLoop file offset count (turns + 1) done)).Emits t out) :
    Turn file offset count turns done t out := by
  rw [readLoop] at h
  by_cases hfull : count ≤ done
  · rw [if_pos hfull] at h
    obtain ⟨rfl, rfl⟩ := h
    exact .full hfull
  · rw [if_neg hfull] at h
    obtain ⟨r, rest, rfl, h⟩ := h
    cases r with
    | error failure =>
      have hnext : (ExceptT.run (if failure.errno = eintr then
          readLoop file offset count turns done
        else closeAndFail file (errFromErrno "pread 失败" failure))).Emits rest out := h
      by_cases hretry : failure.errno = eintr
      · rw [if_pos hretry] at hnext
        exact .retried failure hnext
      · rw [if_neg hretry] at hnext
        obtain ⟨closing, _, rfl, rfl, rfl⟩ := hnext
        exact .failed failure closing _
    | ok data =>
      have hnext : (ExceptT.run (if data = [] then pure done
        else do
          tryResult (← ask (.write data))
          readLoop file offset count turns (done + data.length))).Emits rest out := h
      by_cases hcut : data = []
      · rw [if_pos hcut] at hnext
        obtain ⟨rfl, rfl⟩ := hnext
        subst hcut
        exact .ended (not_le.mp hfull)
      · rw [if_neg hcut] at hnext
        obtain ⟨w, rest, rfl, hnext⟩ := hnext
        cases w with
        | error e =>
          obtain ⟨rfl, rfl⟩ := hnext
          exact .refused e hcut
        | ok _ => exact .advanced (not_le.mp hfull) (min_le_right _ _) hcut hnext

/-- The loop goes on from what it has written; the induction is on its turns. -/
theorem looped_of_emits {out : Except Exit Nat} (hsize : offset + count ≤ object.length)
    (hdone : done ≤ count) (hreads : ∀ step ∈ t, Reads object step) (hends : out ≠ .error .reading)
    (h : (ExceptT.run (readLoop file offset count turns done)).Emits t out) :
    Looped object file offset count done t out := by
  induction turns generalizing t done with
  | zero =>
    obtain ⟨rfl, rfl⟩ := h
    contradiction
  | succ turns ih =>
    cases turn_of_emits h with
    | full hfull =>
      constructor <;> simp
      omega
    | retried failure hnext =>
      exact (ih hdone (List.forall_mem_cons.mp hreads).2 hnext).retried failure
    | failed failure closing e =>
      constructor <;> simp [opened, closed, refuses, findsEnd, closesSink, failsToClose]
    | ended hless =>
      constructor <;> simp [opened, closed, given, refuses, findsEnd, closesSink, failsToClose]
      omega
    | refused e hsome =>
      constructor <;> simp [opened, closed, refuses, findsEnd, closesSink, failsToClose, hsome]
    | advanced hless hn hsome hnext =>
      obtain ⟨hread, hrest⟩ := List.forall_mem_cons.mp hreads
      obtain ⟨-, hlater⟩ := List.forall_mem_cons.mp hrest
      have hlength := length_of_read hsize hless hread hn
      exact (ih hlength hlater hnext).advanced hread hsome

/-- Every turn makes a call, so a loop that may take more turns than it makes calls has ended. -/
theorem ends_of_lt {out : Except Exit Nat}
    (h : (ExceptT.run (readLoop file offset count turns done)).Emits t out)
    (hturns : t.length < turns) : out ≠ .error .reading := by
  induction turns generalizing t done with
  | zero => omega
  | succ turns ih =>
    cases turn_of_emits h with
    | full hfull => simp
    | retried failure hnext =>
      rw [List.length_cons] at hturns
      exact ih hnext (by omega)
    | failed failure closing e => simp
    | ended hless => simp
    | refused e hsome => simp
    | advanced hless hn hsome hnext =>
      rw [List.length_cons, List.length_cons] at hturns
      exact ih hnext (by omega)

end Loop

/-! ## Every run -/

section Runs
variable {store : PosixBlobStore} {ref : ObjectRef} {range : ByteRange} {object : Bytes}
variable {file : Handle} {turns : Nat} {t before : Trace delivering} {out : Except Exit Unit}

/-- Nothing is opened, closed, read or delivered. -/
def Idle (step : Step) : Prop :=
  opened step = [] ∧ closed step = [] ∧ given step = [] ∧ closesSink step = false ∧
    refuses step = false ∧ findsEnd step = false ∧ failsToClose step = false

theorem idle_of_isQuiet {step : Step} {call : Call} (hop : step.op = .system call)
    (hquiet : isQuiet call = true) : Idle step := by
  obtain ⟨op, r⟩ := step
  obtain rfl : op = .system call := hop
  cases call <;> first | exact ⟨rfl, rfl, rfl, rfl, rfl, rfl, rfl⟩ | cases hquiet

theorem idle_of_onFiles {α : Type} {x : Attempt α} {U : Result α → Prop} {r : Except Exit α}
    (hx : x.run.Uses (isQuiet · = true) U) (h : (ExceptT.run (onFiles x)).Emits t r) :
    ∀ step ∈ t, Idle step := by
  have huses : (ExceptT.run (onFiles x)).Uses
      (fun op => ∃ call, op = GetCall.system call ∧ isQuiet call = true) fun _ => True := by
    have hany : ∀ out : Result α, (Program.ret (Except.ok out) :
        Program delivering (Except Exit (Result α))).Uses
          (fun op => ∃ call, op = GetCall.system call ∧ isQuiet call = true) fun _ => True :=
      fun _ => trivial
    refine Program.uses_bind (Program.uses_bind (Program.Uses.translate hx) fun out _ => hany out)
      fun found _ => ?_
    cases found with
    | error e => exact trivial
    | ok result => cases result <;> exact trivial
  intro step hstep
  obtain ⟨call, hop, hquiet⟩ := (huses.emitted h).1 step hstep
  exact idle_of_isQuiet hop hquiet

section Idling
variable (h : ∀ step ∈ before, Idle step)
include h

theorem Idle.opened : (before ++ t).flatMap opened = t.flatMap Delivery.opened := by
  rw [List.flatMap_append, List.flatMap_eq_nil_iff.mpr fun step hstep => (h step hstep).1]
  simp

theorem Idle.closed : (before ++ t).flatMap closed = t.flatMap Delivery.closed := by
  rw [List.flatMap_append, List.flatMap_eq_nil_iff.mpr fun step hstep => (h step hstep).2.1]
  simp

theorem Idle.given : (before ++ t).flatMap given = t.flatMap Delivery.given := by
  rw [List.flatMap_append, List.flatMap_eq_nil_iff.mpr fun step hstep => (h step hstep).2.2.1]
  simp

theorem Idle.closesSink : (before ++ t).countP closesSink = t.countP Delivery.closesSink := by
  have hnone : before.countP Delivery.closesSink = 0 := by
    apply List.countP_eq_zero.mpr
    intro step hstep
    simp [(h step hstep).2.2.2.1]
  simp [hnone]

theorem Idle.delivers :
    Delivers object range (before ++ t) out ↔ Delivers object range t out := by
  constructor
  · rintro ⟨hbytes, hsink, hfiles⟩
    rw [Idle.given h] at hbytes
    rw [Idle.closesSink h] at hsink
    rw [Idle.opened h, Idle.closed h] at hfiles
    exact ⟨hbytes, hsink, hfiles⟩
  · rintro ⟨hbytes, hsink, hfiles⟩
    constructor
    · rwa [Idle.given h]
    · rwa [Idle.closesSink h]
    · rwa [Idle.opened h, Idle.closed h]

theorem Idle.undisturbed : Undisturbed (before ++ t) ↔ Undisturbed t := by
  have hrefuses : before.any refuses = false := by
    apply List.any_eq_false.mpr
    intro step hstep
    simp [(h step hstep).2.2.2.2.1]
  have hfinds : before.any findsEnd = false := by
    apply List.any_eq_false.mpr
    intro step hstep
    simp [(h step hstep).2.2.2.2.2.1]
  have hfails : before.any failsToClose = false := by
    apply List.any_eq_false.mpr
    intro step hstep
    simp [(h step hstep).2.2.2.2.2.2]
  simp [Undisturbed, hrefuses, hfinds, hfails]

end Idling

/-- The part that the loop reads is the range, clamped. -/
theorem rangeOf_clamped {offset count : Nat}
    (h : PosixBlobStore.rangeOf range object.length = .ok (offset, count)) :
    offset + count ≤ object.length ∧ clamped range object = (object.drop offset).take count := by
  unfold PosixBlobStore.rangeOf at h
  by_cases hwhole : range.isWholeObject = true
  · rw [if_pos hwhole] at h
    obtain ⟨rfl, rfl⟩ := Prod.mk.inj (Except.ok.inj h)
    simp only [ByteRange.isWholeObject, Bool.and_eq_true, beq_iff_eq] at hwhole
    simp [clamped, hwhole]
  · rw [if_neg hwhole] at h
    by_cases hbeyond : object.length ≤ range.offset
    · rw [if_pos hbeyond] at h
      cases h
    · rw [if_neg hbeyond] at h
      obtain ⟨rfl, rfl⟩ := Prod.mk.inj (Except.ok.inj h)
      by_cases hall : range.length = 0
      · simp only [clamped, hall, if_true]
        refine ⟨by omega, ?_⟩
        rw [← List.length_drop, List.take_length]
      · simp only [clamped, hall, if_false]
        refine ⟨by omega, ?_⟩
        rw [List.take_eq_take_min, List.length_drop]

theorem delivers_of_closed {e : Exit} {rest : Trace delivering}
    (hrest : rest.flatMap opened = []) (hclosed : rest.flatMap closed = [file]) (path : String) :
    Delivers object range (⟨.system (.openRead path), .ok file⟩ :: rest) (.error e) := by
  constructor
  · simp
  · simp
  · simp [opened, closed, hrest, hclosed]

/-- The run from where the file was opened. -/
theorem delivers_iff_of_opened {path : String} {rest : Trace delivering}
    (hreads : ∀ step ∈ rest, Reads object step) (hends : out ≠ .error .reading)
    (h : (ExceptT.run (getFrom file range turns)).Emits rest out) :
    Delivers object range (⟨.system (.openRead path), .ok file⟩ :: rest) out ↔
      Undisturbed (⟨.system (.openRead path), .ok file⟩ :: rest) := by
  obtain ⟨r, rest, rfl, h⟩ := h
  obtain ⟨hsize, hrest⟩ := List.forall_mem_cons.mp hreads
  cases r with
  | error failure =>
    obtain ⟨r, _, rfl, rfl, rfl⟩ := h
    apply iff_of_true
    · apply delivers_of_closed <;> simp [opened, closed]
    · simp [Undisturbed, refuses, findsEnd]
  | ok size =>
    obtain rfl : size = object.length := hsize
    have hnext : (ExceptT.run (match PosixBlobStore.rangeOf range object.length with
      | .error e => closeAndFail file e
      | .ok (offset, count) => do
        let _ ← readLoop file offset count turns 0
        tell (.system (.close file))
        tryResult (← ask .closeSink))).Emits rest out := h
    cases hpart : PosixBlobStore.rangeOf range object.length with
    | error e =>
      rw [hpart] at hnext
      obtain ⟨r, _, rfl, rfl, rfl⟩ := hnext
      apply iff_of_true
      · apply delivers_of_closed <;> simp [opened, closed]
      · simp [Undisturbed, refuses, findsEnd]
    | ok part =>
      rw [hpart] at hnext
      obtain ⟨hfits, hclamped⟩ := rangeOf_clamped hpart
      obtain ⟨loop, r, tail, rfl, hloop, htail⟩ := Interaction.Action.emits_run_bind.mp hnext
      have hlooped : r ≠ .error .reading → Looped object file part.1 part.2 0 loop r := by
        intro hr
        apply looped_of_emits hfits (Nat.zero_le _) _ hr hloop
        intro step hstep
        exact hrest step (List.mem_append_left _ hstep)
      cases r with
      | error e =>
        obtain ⟨rfl, rfl⟩ := htail
        have hdid := hlooped fun he => hends (congrArg _ (Except.error.inj he))
        obtain ⟨hend, hclosed, hleft⟩ := hdid.failed e rfl
        rw [List.append_nil]
        by_cases hrefuses : loop.any refuses = true
        · apply iff_of_false
          · intro hdelivers
            have hcount := hdelivers.files file (by simp [opened])
            rw [List.flatMap_cons, List.flatMap_cons, hleft hrefuses] at hcount
            simp [closed] at hcount
          · intro hquiet
            have hnever := hquiet.1
            rw [List.any_cons, List.any_cons, hrefuses] at hnever
            simp at hnever
        · have hnone : loop.any refuses = false := Bool.eq_false_iff.mpr hrefuses
          apply iff_of_true
          · apply delivers_of_closed
            · rw [List.flatMap_cons, hdid.opens]
              rfl
            · rw [List.flatMap_cons, hclosed hnone]
              rfl
          · constructor
            · rw [List.any_cons, List.any_cons, hnone]
              rfl
            · rw [List.any_cons, List.any_cons, hend]
              simp [findsEnd]
      | ok done =>
        have hdid := hlooped nofun
        obtain ⟨-, hdone, hclosed, hgiven, hrefuses, hcut⟩ := hdid.finished done rfl
        obtain ⟨c, _, rfl, w, tail, rfl, htail⟩ := htail
        cases w with
        | error e =>
          obtain ⟨rfl, rfl⟩ := htail
          apply iff_of_true
          · apply delivers_of_closed <;>
              simp only [List.flatMap_cons, List.flatMap_append, hdid.opens, hclosed] <;> rfl
          · constructor
            · simp only [List.any_cons, List.any_append, hrefuses]
              rfl
            · simp [failsToClose]
        | ok _ =>
          obtain ⟨rfl, rfl⟩ := htail
          have hbytes : (object.drop part.1).take done = clamped range object ↔ ¬done < part.2 := by
            rw [hclamped]
            constructor
            · intro hsame hless
              have hlength := congrArg List.length hsame
              simp only [List.length_take, List.length_drop] at hlength
              omega
            · intro hless
              rw [le_antisymm hdone (not_lt.mp hless)]
          rw [Nat.add_zero, Nat.sub_zero] at hgiven
          constructor
          · intro hdelivers
            have hwhole := hdelivers.bytes rfl
            simp only [List.flatMap_cons, List.flatMap_append, hgiven] at hwhole
            have hall : ¬done < part.2 := hbytes.mp (by simpa [given] using hwhole)
            constructor
            · simp only [List.any_cons, List.any_append, hrefuses]
              rfl
            · intro hfound
              simp only [List.any_cons, List.any_append] at hfound
              exact absurd (hcut.mp (by simpa [findsEnd] using hfound)) hall
          · intro hquiet
            have hall : ¬done < part.2 := by
              intro hless
              have hfailed := hquiet.2 (by simp [hcut.mpr hless])
              simp only [List.any_cons, List.any_append, hdid.noClose] at hfailed
              simp [failsToClose] at hfailed
            constructor
            · intro _
              simp only [List.flatMap_cons, List.flatMap_append, hgiven, hbytes.mpr hall]
              simp [given]
            · intro _
              simp only [List.countP_cons, List.countP_append, hdid.keepsSink]
              simp [closesSink]
            · simp only [List.flatMap_cons, List.flatMap_append, hdid.opens, hclosed]
              simp [opened, closed]

/-- A success delivers what was asked for, and the file is closed, just when the sink takes
all it is given and the file is not cut. -/
theorem get_delivers_iff (hreads : ∀ step ∈ t, Reads object step) (hends : out ≠ .error .reading)
    (h : (ExceptT.run (get store turns ref range)).Emits t out) :
    Delivers object range t out ↔ Undisturbed t := by
  obtain ⟨before, r, after, rfl, hbefore, hafter⟩ := Interaction.Action.emits_run_bind.mp h
  have hidle : ∀ step ∈ before, Idle step :=
    idle_of_onFiles (objectPath_uses fun _ hquiet => hquiet) hbefore
  rw [Idle.delivers hidle, Idle.undisturbed hidle]
  cases r with
  | error e =>
    obtain ⟨rfl, rfl⟩ := hafter
    apply iff_of_true
    · constructor <;> simp
    · simp [Undisturbed]
  | ok path =>
    obtain ⟨r, rest, rfl, hrest⟩ := hafter
    cases r with
    | error failure =>
      obtain ⟨e, rfl, rfl⟩ : ∃ e, rest = [] ∧ out = .error (.failed e) := by
        have hnext : (ExceptT.run (if failure.errno = .enoent then
            throw (.failed (err .notFound ("对象不存在：" ++ ref.toText)))
          else throw (.failed (errFromErrno "打开对象失败" failure)) : GetAction Unit)).Emits
            rest out := hrest
        by_cases hmissing : failure.errno = .enoent
        · rw [if_pos hmissing] at hnext
          exact ⟨_, hnext⟩
        · rw [if_neg hmissing] at hnext
          exact ⟨_, hnext⟩
      apply iff_of_true
      · constructor <;> simp [opened]
      · simp [Undisturbed, refuses, findsEnd]
    | ok file =>
      apply delivers_iff_of_opened _ hends hrest
      intro step hstep
      exact hreads step (List.mem_append_right _ (List.mem_cons_of_mem _ hstep))

theorem emits_of_onFiles {α : Type} {x : Attempt α} {a : α}
    (h : (ExceptT.run (onFiles x)).Emits t (.ok a)) : ∃ t', x.run.Emits t' (.ok a) := by
  obtain ⟨first, found, rest, -, hfirst, hrest⟩ := Interaction.Action.emits_ok_bind.mp h
  obtain ⟨before, out, after, -, htranslated, -, hout⟩ := Program.emits_bind.mp hfirst
  obtain rfl : found = out := Except.ok.inj hout
  cases found with
  | error e => cases hrest.2
  | ok b =>
    obtain ⟨-, hb⟩ := hrest
    obtain ⟨t', hrun, -⟩ := Program.emits_translate htranslated
    exact ⟨t', Except.ok.inj hb ▸ hrun⟩

/-- The replies are those of a file with these bytes, read in one piece. -/
def Whole (object : Bytes) : Occurrence posix → Prop
  | ⟨.fstat _, .ok size⟩ => size = object.length
  | ⟨.pread _ offset count, .ok data⟩ => data = (object.drop offset).take count
  | _ => True

theorem whole_of_isQuiet {o : Occurrence posix} (h : isQuiet o.op = true) : Whole object o := by
  obtain ⟨op, r⟩ := o
  cases op <;> first | exact trivial | cases h

/-- The rest of a read in one piece, once the size is known. -/
theorem emits_readPart {part : Nat × Nat} {file : Handle}
    (hrange : PosixBlobStore.rangeOf range object.length = .ok part) (data : Bytes) :
    (ExceptT.run (do
      match PosixBlobStore.rangeOf range object.length with
      | .error e =>
        Attempt.tell (.close file)
        throw e
      | .ok (offset, count) =>
        match ← Attempt.ask (.pread file offset count) with
        | .error failure =>
          Attempt.tell (.close file)
          throw (errFromErrno "pread 失败" failure)
        | .ok data =>
          Attempt.tell (.close file)
          return data)).Emits [⟨.pread file part.1 part.2, .ok data⟩, ⟨.close file, .ok ()⟩]
      (.ok data) := by
  rw [hrange]
  exact ⟨.ok data, _, rfl, .ok (), _, rfl, rfl, rfl⟩

/-- What a read delivers is what a read in one piece returns. -/
theorem emits_get_of_delivers (hreads : ∀ step ∈ t, Reads object step)
    (h : (ExceptT.run (get store turns ref range)).Emits t (.ok ()))
    (hdelivers : Delivers object range t (.ok ())) :
    ∃ t', (ExceptT.run (store.get ref range)).Emits t' (.ok (t.flatMap given)) ∧
      ∀ o ∈ t', Whole object o := by
  rw [hdelivers.bytes rfl]
  obtain ⟨before, path, after, rfl, hbefore, hafter⟩ := Interaction.Action.emits_ok_bind.mp h
  obtain ⟨first, hpath⟩ := emits_of_onFiles hbefore
  obtain ⟨r, rest, rfl, hrest⟩ := hafter
  cases r with
  | error failure =>
    have hnext : (ExceptT.run (if failure.errno = .enoent then
        throw (.failed (err .notFound ("对象不存在：" ++ ref.toText)))
      else throw (.failed (errFromErrno "打开对象失败" failure)) : GetAction Unit)).Emits
        rest (.ok ()) := hrest
    split_ifs at hnext <;> cases hnext.2
  | ok file =>
    obtain ⟨r, rest, rfl, hpart⟩ := hrest
    cases r with
    | error failure =>
      obtain ⟨r, _, -, -, hfails⟩ := hpart
      cases hfails
    | ok size =>
      obtain rfl : size = object.length := hreads ⟨.system (.fstat file), .ok size⟩ (by simp)
      have hnext : (ExceptT.run (match PosixBlobStore.rangeOf range object.length with
        | .error e => closeAndFail file e
        | .ok (offset, count) => do
          let _ ← readLoop file offset count turns 0
          tell (.system (.close file))
          tryResult (← ask .closeSink))).Emits rest (.ok ()) := hpart
      cases hrange : PosixBlobStore.rangeOf range object.length with
      | error e =>
        rw [hrange] at hnext
        obtain ⟨r, _, -, -, hfails⟩ := hnext
        cases hfails
      | ok part =>
        have hfirst := ((objectPath_uses fun _ hcall => hcall).emitted hpath).1
        obtain ⟨-, hclamped⟩ := rangeOf_clamped hrange
        refine ⟨first ++ [⟨.openRead path, .ok file⟩, ⟨.fstat file, .ok object.length⟩,
          ⟨.pread file part.1 part.2, .ok (clamped range object)⟩, ⟨.close file, .ok ()⟩], ?_, ?_⟩
        · apply Interaction.Action.emits_ok_bind.mpr
          exact ⟨first, path, _, rfl, hpath, .ok file, _, rfl, .ok object.length, _, rfl,
            emits_readPart hrange _⟩
        · intro o ho
          rcases List.mem_append.mp ho with hquiet | hlater
          · exact whole_of_isQuiet (hfirst o hquiet)
          · simp only [List.mem_cons, List.not_mem_nil, or_false] at hlater
            rcases hlater with rfl | rfl | rfl | rfl
            · exact trivial
            · rfl
            · exact hclamped
            · exact trivial

end Runs

/-! ## Runs of one byte -/

def sampleStore : PosixBlobStore where
  root := "/d"
  pid := 1
  tmpToken := "t"
  sha256Hex _ := ""
  dump _ := []
  parseObject _ := .ok (.object [])

def sampleRef : ObjectRef := { container := "c", key := "k" }

/-- The steps of a read of one byte, up to the first read. -/
def sampleRun (data : Bytes) : Trace delivering :=
  [⟨.system (.fileExists "/d/c"), true⟩, ⟨.system (.verifyResolvedWithinRoot "/d/c" "/d/c/k"), .ok ()⟩,
    ⟨.system (.openRead "/d/c/k"), .ok 3⟩, ⟨.system (.fstat 3), .ok 1⟩,
    ⟨.system (.pread 3 0 1), .ok data⟩]

/-- A read that nothing disturbs. -/
def wholeRun : Trace delivering :=
  sampleRun [7] ++ [⟨.write [7], .ok ()⟩, ⟨.system (.close 3), .ok ()⟩, ⟨.closeSink, .ok ()⟩]

theorem emits_wholeRun : (ExceptT.run (get sampleStore 2 sampleRef {})).Emits wholeRun (.ok ()) :=
  ⟨true, _, rfl, .ok (), _, rfl, .ok 3, _, rfl, .ok 1, _, rfl, .ok [7], _, rfl, .ok (), _, rfl,
    .ok (), _, rfl, .ok (), _, rfl, rfl, rfl⟩

theorem wholeRun_delivers : Delivers [7] {} wholeRun (.ok ()) := by
  have hreads : ∀ step ∈ wholeRun, Reads [7] step := by simp [wholeRun, sampleRun, Reads]
  exact (get_delivers_iff hreads (by simp) emits_wholeRun).mpr ⟨rfl, nofun⟩

/-- The sink refuses the byte. -/
def refusedRun : Trace delivering := sampleRun [7] ++ [⟨.write [7], .error (err .internal "")⟩]

/-- The object is cut before it is read. -/
def cutRun : Trace delivering :=
  sampleRun [] ++ [⟨.system (.close 3), .ok ()⟩, ⟨.closeSink, .ok ()⟩]

/-- The file stays open when the sink refuses, and a cut object is a success without its byte. -/
theorem refused_and_cut_runs_fail :
    ((ExceptT.run (get sampleStore 2 sampleRef {})).Emits refusedRun
        (.error (.failed (err .internal ""))) ∧
      (∀ step ∈ refusedRun, Reads [7] step) ∧
        ¬Delivers [7] {} refusedRun (.error (.failed (err .internal "")))) ∧
    (ExceptT.run (get sampleStore 2 sampleRef {})).Emits cutRun (.ok ()) ∧
      (∀ step ∈ cutRun, Reads [7] step) ∧ ¬Delivers [7] {} cutRun (.ok ()) := by
  refine ⟨⟨?_, ?_, ?_⟩, ?_, ?_, ?_⟩
  · exact ⟨true, _, rfl, .ok (), _, rfl, .ok 3, _, rfl, .ok 1, _, rfl, .ok [7], _, rfl, .error _, _,
      rfl, rfl, rfl⟩
  · simp [refusedRun, sampleRun, Reads]
  · intro h
    have hcount := h.files 3 (by decide)
    revert hcount
    decide
  · exact ⟨true, _, rfl, .ok (), _, rfl, .ok 3, _, rfl, .ok 1, _, rfl, .ok [], _, rfl,
      .ok (), _, rfl, .ok (), _, rfl, rfl, rfl⟩
  · simp [cutRun, sampleRun, Reads]
  · intro h
    have hbytes := h.bytes rfl
    revert hbytes
    decide

end FileService.Posix.Delivery
