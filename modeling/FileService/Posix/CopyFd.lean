import FileService.Posix.Delivery

/-!
# Copying from descriptor to descriptor

`copy_file_range` is given explicit offsets and leaves the positions of the
descriptors alone; `read` and `write` go on from these positions. Where the
first loop is given up, the output is emptied, and the second one starts again
with both descriptors at the front.
-/
namespace FileService.Posix.CopyFd
open FileService.Domain FileService.Interaction
open FileService.Posix.Delivery (eintr ioBufferBytes)
open FileSystem (overwrite)

/-- The system calls on the two descriptors. -/
inductive CopyCall where
  | copyFileRange (inOffset outOffset count : Nat)
  | seekStart
  | truncate
  | read (count : Nat)
  | write (data : Bytes)

abbrev CopyCall.Reply : CopyCall → Type
  | .copyFileRange .. => Sys Nat
  | .seekStart => Sys Nat
  | .truncate => Sys Unit
  | .read _ => Sys Bytes
  | .write _ => Sys Nat

abbrev copying : Interface where
  Op := CopyCall
  Reply := CopyCall.Reply

/-- A part of the copy; `none` is a loop that has not ended in the turns it was given. -/
abbrev Part := Program copying (Option Bool)

def perform (call : CopyCall) : Program copying call.Reply := Program.perform (I := copying) call

/-- `WriteAll`, from where so many octets have been written. -/
def writeAll (data : Bytes) : Nat → Nat → Part
  | 0, _ => pure none
  | turns + 1, written =>
    if data.length ≤ written then pure (some true)
    else do
      match ← perform (.write (data.drop written)) with
      | .error failure =>
        if failure.errno = eintr then writeAll data turns written else pure (some false)
      | .ok n => writeAll data turns (written + n)

/-- The first loop; whether `copy_file_range` could be used to the end. -/
def copyRange : Nat → Nat → Nat → Part
  | 0, _, _ => pure none
  | turns + 1, inOffset, outOffset => do
    match ← perform (.copyFileRange inOffset outOffset ioBufferBytes) with
    | .ok 0 => pure (some true)
    | .ok (n + 1) => copyRange turns (inOffset + (n + 1)) (outOffset + (n + 1))
    | .error failure =>
      if failure.errno = eintr then copyRange turns inOffset outOffset else pure (some false)

/-- The second loop. -/
def copyStream : Nat → Part
  | 0 => pure none
  | turns + 1 => do
    match ← perform (.read ioBufferBytes) with
    | .ok [] => pure (some true)
    | .ok (b :: bytes) =>
      match ← writeAll (b :: bytes) turns 0 with
      | some true => copyStream turns
      | ended => pure ended
    | .error failure => if failure.errno = eintr then copyStream turns else pure (some false)

/-- `CopyFd`; each loop takes at most so many turns. -/
def copyFd (turns : Nat) : Part := do
  match ← copyRange turns 0 0 with
  | some false =>
    match ← perform .seekStart with
    | .ok 0 =>
      match ← perform .truncate with
      | .ok _ => copyStream turns
      | .error _ => pure (some false)
    | _ => pure (some false)
  | ended => pure ended

/-! ## The files -/

/-- What the two files hold, and where their descriptors stand. -/
structure Descriptors where
  input : Bytes
  output : Bytes := []
  inPos : Nat := 0
  outPos : Nat := 0

/-- What a call may do and reply. An interrupted call has done nothing; another failure may leave
anything in the output. A count of zero is the end of the input. -/
def Does : Effects copying Descriptors
  | s, .copyFileRange inOffset outOffset count, .ok n, s' =>
    n ≤ count ∧ n ≤ s.input.length - inOffset ∧ (n = 0 → s.input.length ≤ inOffset) ∧
      s' = { s with output := overwrite s.output outOffset ((s.input.drop inOffset).take n) }
  | s, .copyFileRange .., .error failure, s' =>
    if failure.errno = eintr then s' = s else ∃ output, s' = { s with output }
  | s, .seekStart, .ok pos, s' => pos = 0 ∧ s' = { s with inPos := 0 }
  | s, .seekStart, .error _, s' => s' = s
  | s, .truncate, .ok _, s' => s' = { s with output := [] }
  | s, .truncate, .error _, s' => s' = s
  | s, .read count, .ok data, s' =>
    data <+: (s.input.drop s.inPos).take count ∧ (data = [] → s.input.length ≤ s.inPos) ∧
      s' = { s with inPos := s.inPos + data.length }
  | s, .read _, .error _, s' => s' = s
  | s, .write data, .ok n, s' =>
    n ≤ data.length ∧
      s' = { s with output := overwrite s.output s.outPos (data.take n), outPos := s.outPos + n }
  | s, .write _, .error failure, s' =>
    if failure.errno = eintr then s' = s else ∃ output, s' = { s with output }

/-! ## Writing at the end -/

section Ends
variable {data bytes : Bytes} {n pos : Nat}

theorem overwrite_end : overwrite data data.length bytes = data ++ bytes := by
  simp [overwrite, List.drop_of_length_le]

/-- What is copied at the same offset goes on with the first part of the input. -/
theorem take_append_slice : data.take pos ++ (data.drop pos).take n = data.take (pos + n) :=
  List.take_add.symm

theorem take_append_read (h : bytes <+: (data.drop pos).take n) :
    data.take pos ++ bytes = data.take (pos + bytes.length) := by
  have hbytes : bytes = (data.drop pos).take bytes.length :=
    List.prefix_iff_eq_take.mp (h.trans (List.take_prefix _ _))
  rw [← take_append_slice, ← hbytes]

end Ends

/-! ## The loops -/

section Loops
variable {input base data : Bytes} {turns offset written pos : Nat}

/-- The first loop has copied so much of the input; the position of the output was not moved. -/
structure RangeCopied (input : Bytes) (offset : Nat) (s : Descriptors) : Prop where
  sameInput : s.input = input
  inside : offset ≤ input.length
  copied : s.output = input.take offset
  front : s.outPos = 0

/-- The second loop has written what it has read. -/
structure Streamed (input : Bytes) (s : Descriptors) : Prop where
  sameInput : s.input = input
  inside : s.inPos ≤ input.length
  copied : s.output = input.take s.inPos
  atEnd : s.outPos = s.output.length

/-- So much of the data is written behind what was there. -/
structure Writing (input base data : Bytes) (pos written : Nat) (s : Descriptors) : Prop where
  sameInput : s.input = input
  samePos : s.inPos = pos
  inside : written ≤ data.length
  copied : s.output = base ++ data.take written
  atEnd : s.outPos = s.output.length

theorem RangeCopied.next {s s' : Descriptors} {n count : Nat} (h : RangeCopied input offset s)
    (hdoes : Does s (.copyFileRange offset offset count) (.ok n) s') :
    RangeCopied input (offset + n) s' := by
  obtain ⟨rfl, hinside, hcopied, hfront⟩ := h
  obtain ⟨-, hn, -, rfl⟩ := hdoes
  have hlength : s.output.length = offset := by simp [hcopied, hinside]
  constructor
  · rfl
  · omega
  · calc overwrite s.output offset ((s.input.drop offset).take n)
      _ = overwrite s.output s.output.length ((s.input.drop offset).take n) := by rw [hlength]
      _ = s.input.take offset ++ (s.input.drop offset).take n := by rw [overwrite_end, hcopied]
      _ = s.input.take (offset + n) := take_append_slice
  · exact hfront

theorem Writing.next {s s' : Descriptors} {n : Nat} (h : Writing input base data pos written s)
    (hdoes : Does s (.write (data.drop written)) (.ok n) s') :
    Writing input base data pos (written + n) s' := by
  obtain ⟨hinput, hpos, hinside, hcopied, hend⟩ := h
  obtain ⟨hn, rfl⟩ := hdoes
  rw [List.length_drop] at hn
  have houtput : overwrite s.output s.outPos ((data.drop written).take n) =
      base ++ data.take (written + n) := by
    rw [hend, overwrite_end, hcopied, List.append_assoc, take_append_slice]
  constructor
  · exact hinput
  · exact hpos
  · omega
  · exact houtput
  · change s.outPos + n = (overwrite s.output s.outPos ((data.drop written).take n)).length
    rw [houtput, hend, hcopied]
    simp only [List.length_append, List.length_take]
    omega

theorem writeAll_ensures : Program.Ensures Does (Writing input base data pos written)
    (writeAll data turns written)
    fun ended s => ended = some true → Writing input base data pos data.length s := by
  induction turns generalizing written with
  | zero => exact Program.ensures_pure fun s _ => nofun
  | succ turns ih =>
    rw [writeAll]
    by_cases hall : data.length ≤ written
    · rw [if_pos hall]
      refine Program.ensures_pure fun s hs _ => ?_
      rwa [← Nat.le_antisymm hs.inside hall]
    · rw [if_neg hall]
      refine Program.Ensures.bind (Q := fun r s => match r with
        | .ok n => Writing input base data pos (written + n) s
        | .error failure => failure.errno = eintr → Writing input base data pos written s)
        (Program.ensures_perform fun s r s' hs hdoes => ?_) fun r => ?_
      · cases r with
        | ok n => exact hs.next hdoes
        | error failure =>
          intro hretry
          obtain rfl : s' = s := by simpa [Does, hretry] using hdoes
          exact hs
      · cases r with
        | ok n => exact ih
        | error failure =>
          by_cases hretry : failure.errno = eintr
          · simp only [hretry, if_true]
            exact ih.mono (fun s hs => hs trivial) fun _ _ h => h
          · simp only [hretry, if_false]
            exact Program.ensures_pure fun s _ => nofun

theorem copyRange_ensures : Program.Ensures Does (RangeCopied input offset)
    (copyRange turns offset offset)
    fun ended s => s.input = input ∧ (ended = some true → s.output = input) ∧ s.outPos = 0 := by
  induction turns generalizing offset with
  | zero => exact Program.ensures_pure fun s hs => ⟨hs.sameInput, nofun, hs.front⟩
  | succ turns ih =>
    rw [copyRange]
    refine Program.Ensures.bind (Q := fun r s => match r with
      | .ok 0 => s.input = input ∧ s.output = input ∧ s.outPos = 0
      | .ok (n + 1) => RangeCopied input (offset + (n + 1)) s
      | .error failure => s.input = input ∧ s.outPos = 0 ∧
          (failure.errno = eintr → RangeCopied input offset s))
      (Program.ensures_perform fun s r s' hs hdoes => ?_) fun r => ?_
    · match r with
      | .ok 0 =>
        have hnext := hs.next hdoes
        have hend : input.length ≤ offset := by simpa [hs.sameInput] using hdoes.2.2.1
        have hwhole : input.take offset = input := List.take_of_length_le hend
        exact ⟨hnext.sameInput, hnext.copied.trans hwhole, hnext.front⟩
      | .ok (n + 1) => exact hs.next hdoes
      | .error failure =>
        by_cases hretry : failure.errno = eintr
        · obtain rfl : s' = s := by simpa [Does, hretry] using hdoes
          exact ⟨hs.sameInput, hs.front, fun _ => hs⟩
        · obtain ⟨output, rfl⟩ : ∃ output, s' = { s with output } := by
            simpa [Does, hretry] using hdoes
          exact ⟨hs.sameInput, hs.front, fun h => absurd h hretry⟩
    · match r with
      | .ok 0 => exact Program.ensures_pure fun s hs => ⟨hs.1, fun _ => hs.2.1, hs.2.2⟩
      | .ok (n + 1) => exact ih
      | .error failure =>
        by_cases hretry : failure.errno = eintr
        · simp only [hretry, if_true]
          exact ih.mono (fun s hs => hs.2.2 trivial) fun _ _ h => h
        · simp only [hretry, if_false]
          exact Program.ensures_pure fun s hs => ⟨hs.1, nofun, hs.2.1⟩

theorem copyStream_ensures : Program.Ensures Does (Streamed input) (copyStream turns)
    fun ended s => ended = some true → s.output = input := by
  induction turns with
  | zero => exact Program.ensures_pure fun s _ => nofun
  | succ turns ih =>
    rw [copyStream]
    refine Program.Ensures.bind (Q := fun r s => match r with
      | .ok [] => s.output = input
      | .ok (b :: bytes) => ∃ base pos, base ++ b :: bytes = input.take pos ∧
          pos ≤ input.length ∧ Writing input base (b :: bytes) pos 0 s
      | .error _ => Streamed input s)
      (Program.ensures_perform fun s r s' hs hdoes => ?_) fun r => ?_
    · obtain ⟨hinput, hinside, hcopied, hatEnd⟩ := hs
      match r with
      | .ok [] =>
        obtain ⟨-, hend, rfl⟩ := hdoes
        rw [hinput] at hend
        exact hcopied.trans (List.take_of_length_le (hend rfl))
      | .ok (b :: bytes) =>
        obtain ⟨hread, -, rfl⟩ := hdoes
        rw [hinput] at hread
        have hlength : (b :: bytes).length ≤ input.length - s.inPos := by
          have hread' := hread.length_le
          simp only [List.length_take, List.length_drop] at hread'
          omega
        refine ⟨s.output, s.inPos + (b :: bytes).length, ?_, by omega, hinput, rfl,
          Nat.zero_le _, ?_, hatEnd⟩
        · rw [hcopied, take_append_read hread]
        · simp
      | .error failure =>
        obtain rfl : s' = s := hdoes
        exact ⟨hinput, hinside, hcopied, hatEnd⟩
    · match r with
      | .ok [] => exact Program.ensures_pure fun s hs _ => hs
      | .ok (b :: bytes) =>
        refine Program.Ensures.bind (Q := fun ended s => ended = some true → Streamed input s)
          ?_ fun ended => ?_
        · rintro s t ended s' ⟨base, pos, hread, hinside, hs⟩ hperforms hended
          obtain ⟨hinput, rfl, -, hcopied, hatEnd⟩ :=
            writeAll_ensures s t ended s' hs hperforms hended
          refine ⟨hinput, hinside, ?_, hatEnd⟩
          rw [hcopied, List.take_length, hread]
        · match ended with
          | some true => exact ih.mono (fun s hs => hs rfl) fun _ _ h => h
          | some false => exact Program.ensures_pure fun s _ => nofun
          | none => exact Program.ensures_pure fun s _ => nofun
      | .error failure =>
        by_cases hretry : failure.errno = eintr
        · simp only [hretry, if_true]
          exact ih
        · simp only [hretry, if_false]
          exact Program.ensures_pure fun s _ => nofun

end Loops

/-! ## The whole copy -/

/-- After the second loop has been started from the front, nothing of the first one is left. -/
theorem copyFd_ensures {input : Bytes} {turns : Nat} :
    Program.Ensures Does (RangeCopied input 0) (copyFd turns)
      fun ended s => ended = some true → s.output = input := by
  unfold copyFd
  refine Program.Ensures.bind copyRange_ensures fun ended => ?_
  match ended with
  | some true => exact Program.ensures_pure fun s hs => hs.2.1
  | none => exact Program.ensures_pure fun s _ => nofun
  | some false =>
    refine Program.Ensures.bind (Q := fun r s => r = .ok 0 →
      s.input = input ∧ s.inPos = 0 ∧ s.outPos = 0)
      (Program.ensures_perform fun s r s' hs hdoes => ?_) fun r => ?_
    · rintro rfl
      obtain ⟨-, rfl⟩ := hdoes
      exact ⟨hs.1, rfl, hs.2.2⟩
    · match r with
      | .ok (n + 1) => exact Program.ensures_pure fun s _ => nofun
      | .error failure => exact Program.ensures_pure fun s _ => nofun
      | .ok 0 =>
        refine Program.Ensures.bind (Q := fun r s => r = .ok () → Streamed input s)
          (Program.ensures_perform fun s r s' hs hdoes => ?_) fun r => ?_
        · rintro rfl
          obtain ⟨hinput, hin, hout⟩ := hs rfl
          obtain rfl : s' = { s with output := [] } := hdoes
          exact ⟨hinput, by simp [hin], by simp [hin], by simpa using hout⟩
        · match r with
          | .ok () => exact copyStream_ensures.mono (fun s hs => hs rfl) fun _ _ h => h
          | .error failure => exact Program.ensures_pure fun s _ => nofun

section Whole
variable {input : Bytes} {pos turns : Nat} {s s' : Descriptors}
variable {t : List (Performed copying Descriptors)} {copied : Bool}

theorem performs_next {call : CopyCall} {next : call.Reply → Part} {ended : Option Bool}
    (r : call.Reply) (s₁ : Descriptors) (hdoes : Does s call r s₁)
    (h : ∃ t, (next r).Performs Does s₁ t ended s') :
    ∃ t, (perform call >>= next).Performs Does s t ended s' := by
  obtain ⟨t, hnext⟩ := h
  exact ⟨_, r, s₁, t, hdoes, rfl, hnext⟩

theorem rangeCopied_start : RangeCopied input 0 { input, inPos := pos } :=
  ⟨rfl, Nat.zero_le _, rfl, rfl⟩

/-- A copy into an empty file that reports success has copied the whole input. -/
theorem copyFd_copies
    (h : (copyFd turns).Performs Does { input, inPos := pos } t (some true) s') :
    s'.output = input :=
  copyFd_ensures _ t _ s' rangeCopied_start h rfl

/-- The first loop copies one octet and is refused with garbage left behind; the second one
is interrupted at a read and at a write, and writes the first octet alone. -/
theorem copyFd_copies_restarted : ∃ t s',
    (copyFd 9).Performs Does { input := [7, 8] } t (some true) s' ∧ s'.output = [7, 8] := by
  have hrun : ∃ t, (copyFd 9).Performs Does { input := [7, 8] } t (some true)
      { input := [7, 8], output := [7, 8], inPos := 2, outPos := 2 } := by
    refine performs_next (.ok 1) { input := [7, 8], output := [7] }
      ⟨by decide, by decide, nofun, rfl⟩ ?_
    refine performs_next (.error ⟨.other 18, ""⟩) { input := [7, 8], output := [0, 0, 0] }
      ⟨_, rfl⟩ ?_
    refine performs_next (.ok 0) { input := [7, 8], output := [0, 0, 0] } ⟨rfl, rfl⟩ ?_
    refine performs_next (.ok ()) { input := [7, 8] } rfl ?_
    refine performs_next (.error ⟨eintr, ""⟩) { input := [7, 8] } rfl ?_
    refine performs_next (.ok [7, 8]) { input := [7, 8], inPos := 2 } ⟨⟨[], rfl⟩, nofun, rfl⟩ ?_
    refine performs_next (.error ⟨eintr, ""⟩) { input := [7, 8], inPos := 2 } rfl ?_
    refine performs_next (.ok 1) { input := [7, 8], output := [7], inPos := 2, outPos := 1 }
      ⟨by decide, rfl⟩ ?_
    refine performs_next (.ok 1) { input := [7, 8], output := [7, 8], inPos := 2, outPos := 2 }
      ⟨by decide, rfl⟩ ?_
    refine performs_next (.ok []) { input := [7, 8], output := [7, 8], inPos := 2, outPos := 2 }
      ⟨⟨[], rfl⟩, fun _ => by decide, rfl⟩ ?_
    exact ⟨[], rfl, rfl, rfl⟩
  obtain ⟨t, hperforms⟩ := hrun
  exact ⟨t, _, hperforms, copyFd_copies hperforms⟩

/-- What the calls do to the two files is what the copy may do in the file system. -/
theorem copyFd_does {fs : FileSystem} {source target : Handle} {i : Nat}
    (hsource : fs.fileOf source = some i)
    (h : (copyFd turns).Performs Does { input := fs.data i, inPos := pos } t (some copied) s') :
    fs.Does (.copyFd source target) copied (fs.refill target s'.output) := by
  refine ⟨s'.output, ?_, rfl⟩
  rintro rfl
  rw [copyFd_ensures _ t _ s' rangeCopied_start h rfl, hsource]
  rfl

end Whole

/-! ## Turns -/

section Turns
variable {exec : Effects copying Descriptors} {data : Bytes}
variable {turns inOffset outOffset written : Nat}
variable {s s' : Descriptors} {t : List (Performed copying Descriptors)} {ended : Option Bool}

/-- A failed call is made again in the next turn, or it is the last one. -/
theorem ends_of_retried {failure : Failure} {again : Part}
    (h : (if failure.errno = eintr then again else pure (some false)).Performs exec s t ended s')
    (hagain : again.Performs exec s t ended s' → ended ≠ none) : ended ≠ none := by
  by_cases hretry : failure.errno = eintr
  · rw [if_pos hretry] at h
    exact hagain h
  · rw [if_neg hretry] at h
    obtain ⟨-, rfl, -⟩ := h
    simp

/-- Every turn makes a call, so a loop that may take more turns than it makes calls has ended. -/
theorem writeAll_ends (h : (writeAll data turns written).Performs exec s t ended s')
    (hturns : t.length < turns) : ended ≠ none := by
  induction turns generalizing s t written with
  | zero => omega
  | succ turns ih =>
    rw [writeAll] at h
    by_cases hall : data.length ≤ written
    · rw [if_pos hall] at h
      obtain ⟨-, rfl, -⟩ := h
      simp
    · rw [if_neg hall] at h
      obtain ⟨r, s₁, rest, -, rfl, hnext⟩ := Program.performs_call_bind.mp h
      rw [List.length_cons] at hturns
      cases r with
      | ok n => exact ih hnext (by omega)
      | error failure => exact ends_of_retried hnext fun h => ih h (by omega)

theorem copyRange_ends (h : (copyRange turns inOffset outOffset).Performs exec s t ended s')
    (hturns : t.length < turns) : ended ≠ none := by
  induction turns generalizing s t inOffset outOffset with
  | zero => omega
  | succ turns ih =>
    rw [copyRange] at h
    obtain ⟨r, s₁, rest, -, rfl, hnext⟩ := Program.performs_call_bind.mp h
    rw [List.length_cons] at hturns
    cases r with
    | ok n =>
      cases n with
      | zero =>
        obtain ⟨-, rfl, -⟩ := hnext
        simp
      | succ n => exact ih hnext (by omega)
    | error failure => exact ends_of_retried hnext fun h => ih h (by omega)

theorem copyStream_ends (h : (copyStream turns).Performs exec s t ended s')
    (hturns : t.length < turns) : ended ≠ none := by
  induction turns generalizing s t with
  | zero => omega
  | succ turns ih =>
    rw [copyStream] at h
    obtain ⟨r, s₁, rest, -, rfl, hnext⟩ := Program.performs_call_bind.mp h
    rw [List.length_cons] at hturns
    cases r with
    | ok read =>
      cases read with
      | nil =>
        obtain ⟨-, rfl, -⟩ := hnext
        simp
      | cons b bytes =>
        obtain ⟨t₁, wrote, s₂, t₂, rfl, hwrite, hlater⟩ := Program.performs_bind.mp hnext
        rw [List.length_append] at hturns
        rcases wrote with _ | _ | _
        · exact absurd rfl (writeAll_ends hwrite (by omega))
        · obtain ⟨-, rfl, -⟩ := hlater
          simp
        · exact ih hlater (by omega)
    | error failure => exact ends_of_retried hnext fun h => ih h (by omega)

theorem copyFd_ends (h : (copyFd turns).Performs exec s t ended s') (hturns : t.length < turns) :
    ended ≠ none := by
  obtain ⟨t₁, ranged, s₁, t₂, rfl, hrange, hnext⟩ := Program.performs_bind.mp h
  rw [List.length_append] at hturns
  rcases ranged with _ | _ | _
  · exact absurd rfl (copyRange_ends hrange (by omega))
  · obtain ⟨sought, s₂, rest, -, rfl, hlater⟩ := Program.performs_call_bind.mp hnext
    rw [List.length_cons] at hturns
    rcases sought with failure | _ | n
    · obtain ⟨-, rfl, -⟩ := hlater
      simp
    · obtain ⟨emptied, s₃, rest, -, rfl, hstream⟩ := Program.performs_call_bind.mp hlater
      rw [List.length_cons] at hturns
      cases emptied with
      | ok _ => exact copyStream_ends hstream (by omega)
      | error failure =>
        obtain ⟨-, rfl, -⟩ := hstream
        simp
    · obtain ⟨-, rfl, -⟩ := hlater
      simp
  · obtain ⟨-, rfl, -⟩ := hnext
    simp

end Turns

end FileService.Posix.CopyFd
