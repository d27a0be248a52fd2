import FileService.Domain.Types

/-!
# Sources and sinks of bytes

A source is read piece by piece and puts out no more than it is asked for; a
piece without bytes is its end. A stream is a source that has contents: short
reads cut them up in any way, and after them it ends or fails.
-/
namespace FileService.Streams
open FileService.Common FileService.Domain

variable {σ τ : Type}

/-- `ByteSource` -/
structure ByteSource (σ : Type) where
  read : Nat → σ → Result Bytes × σ
  fits : ∀ {capacity : Nat} {s s' : σ} {bytes : Bytes},
    read capacity s = (.ok bytes, s') → bytes.length ≤ capacity

/-- What a read does to these contents, with this error after them. -/
def Serves : Bytes × Option Error → Result Bytes → Bytes × Option Error → Prop
  | ([], none), result, after => result = .ok [] ∧ after = ([], none)
  | ([], some e), result, _ => result = .error e
  | (bytes, failure), result, after =>
    ∃ n, 0 < n ∧ result = .ok (bytes.take n) ∧ after = (bytes.drop n, failure)

theorem serves_take {bytes : Bytes} {n : Nat} (hbytes : bytes ≠ []) (hn : 0 < n)
    (failure : Option Error) :
    Serves (bytes, failure) (.ok (bytes.take n)) (bytes.drop n, failure) := by
  cases bytes with
  | nil => exact absurd rfl hbytes
  | cons b bytes => exact ⟨n, hn, rfl, rfl⟩

structure ByteStream (σ : Type) extends ByteSource σ where
  rest : σ → Bytes
  failure : σ → Option Error
  serves : ∀ {capacity : Nat} (s : σ), 0 < capacity →
    Serves (rest s, failure s) (read capacity s).1
      (rest (read capacity s).2, failure (read capacity s).2)

/-- `ByteSink` -/
structure ByteSink (τ : Type) where
  write : Bytes → τ → Result Unit × τ
  close : τ → Result Unit × τ

/-- A sink that never fails and keeps what it is given. -/
structure SafeSink (τ : Type) extends ByteSink τ where
  received : τ → Bytes
  write_ok : ∀ (bytes : Bytes) (t : τ), (write bytes t).1 = .ok () ∧
    received (write bytes t).2 = received t ++ bytes
  close_ok : ∀ t : τ, (close t).1 = .ok () ∧ received (close t).2 = received t

/-- A `buffer_size` of zero stands for this one. -/
def defaultBufferSize : Nat := 64 * 1024

namespace ByteSource
variable (source : ByteSource σ)

/-- The loop of `PumpTo`; the fuel bounds the number of reads. -/
def pumpLoop (sink : ByteSink τ) (capacity : Nat) :
    Nat → Nat → σ → τ → Option (Result Nat × σ × τ)
  | 0, _, _, _ => none
  | fuel + 1, total, s, t =>
    match source.read capacity s with
    | (.error e, s') => some (.error e, s', t)
    | (.ok [], s') =>
      match sink.close t with
      | (.error e, t') => some (.error e, s', t')
      | (.ok _, t') => some (.ok total, s', t')
    | (.ok (b :: bytes), s') =>
      match sink.write (b :: bytes) t with
      | (.error e, t') => some (.error e, s', t')
      | (.ok _, t') => pumpLoop sink capacity fuel (total + (bytes.length + 1)) s' t'

/-- `PumpTo` -/
def pumpTo (sink : ByteSink τ) (bufferSize fuel : Nat) (s : σ) (t : τ) :
    Option (Result Nat × σ × τ) :=
  source.pumpLoop sink (if bufferSize = 0 then defaultBufferSize else bufferSize) fuel 0 s t

/-- A pump that has come to its end does not need more fuel. -/
theorem pumpLoop_mono {sink : ByteSink τ} {capacity fuel fuel' total : Nat} {s : σ} {t : τ}
    {r : Result Nat × σ × τ} (hfuel : fuel ≤ fuel')
    (h : source.pumpLoop sink capacity fuel total s t = some r) :
    source.pumpLoop sink capacity fuel' total s t = some r := by
  induction fuel generalizing fuel' total s t with
  | zero => cases h
  | succ fuel ih =>
    obtain ⟨k, rfl⟩ : ∃ k, fuel' = k + 1 := ⟨fuel' - 1, by omega⟩
    rw [pumpLoop] at h ⊢
    split at h
    · exact h
    · exact h
    · split at h
      · exact h
      · exact ih (by omega) h

/-- The results of reads with these capacities, whatever becomes of them. -/
def reads : List Nat → σ → List (Result Bytes)
  | [], _ => []
  | capacity :: capacities, s =>
    (source.read capacity s).1 :: reads capacities (source.read capacity s).2

/-- How a run of reads stands. -/
inductive Verdict where
  | unfinished
  | finished
  | failed (error : Error)
deriving DecidableEq, Repr

/-- Read with these capacities until the source ends or fails: what has been read, and the end. -/
def drain : List Nat → σ → Bytes × Verdict
  | [], _ => ([], .unfinished)
  | capacity :: capacities, s =>
    match source.read capacity s with
    | (.error e, _) => ([], .failed e)
    | (.ok [], _) => ([], .finished)
    | (.ok (b :: bytes), s') =>
      let (others, verdict) := drain capacities s'
      (b :: bytes ++ others, verdict)

/-- The pieces that come out of reads of one capacity, until the source ends or fails. -/
inductive Presents (capacity : Nat) : σ → List Bytes → Option Error → Prop
  | ended {s s' : σ} : source.read capacity s = (.ok [], s') → Presents capacity s [] none
  | failed {s s' : σ} {e : Error} : source.read capacity s = (.error e, s') →
      Presents capacity s [] (some e)
  | piece {s s' : σ} {b : UInt8} {bytes : Bytes} {pieces : List Bytes} {failure : Option Error} :
      source.read capacity s = (.ok (b :: bytes), s') → Presents capacity s' pieces failure →
      Presents capacity s ((b :: bytes) :: pieces) failure

end ByteSource

/-! ## Reading a stream -/

section Reading
variable {stream : ByteStream σ} {s : σ} {capacity : Nat} {pieces : List Bytes}
variable {failure : Option Error}

/-- A read at the end of the contents, and one before it. -/
theorem stream_read (stream : ByteStream σ) (s : σ) (hcapacity : 0 < capacity) :
    (stream.rest s = [] ∧ stream.failure s = none ∧ ∃ s', stream.read capacity s = (.ok [], s')) ∨
    (stream.rest s = [] ∧ ∃ e s', stream.failure s = some e ∧ stream.read capacity s = (.error e, s')) ∨
    ∃ b bytes s', stream.read capacity s = (.ok (b :: bytes), s') ∧
      stream.rest s = b :: bytes ++ stream.rest s' ∧ stream.failure s' = stream.failure s := by
  have hserves := stream.serves s hcapacity
  generalize hread : stream.read capacity s = answer at hserves
  obtain ⟨result, s'⟩ := answer
  cases hrest : stream.rest s with
  | nil =>
    cases hfailure : stream.failure s with
    | none =>
      rw [hrest, hfailure] at hserves
      obtain ⟨rfl, -⟩ := hserves
      exact .inl ⟨rfl, rfl, s', rfl⟩
    | some e =>
      rw [hrest, hfailure] at hserves
      obtain rfl : result = .error e := hserves
      exact .inr (.inl ⟨rfl, e, s', rfl, rfl⟩)
  | cons b bytes =>
    rw [hrest] at hserves
    obtain ⟨n, hn, rfl, hafter⟩ := hserves
    obtain ⟨hleft, hsame⟩ := Prod.mk.inj hafter
    obtain ⟨k, rfl⟩ : ∃ k, n = k + 1 := ⟨n - 1, by omega⟩
    refine .inr (.inr ⟨b, bytes.take k, s', by rw [List.take_succ_cons], ?_, hsame⟩)
    dsimp only at hleft
    rw [hleft, List.drop_succ_cons, List.cons_append, List.take_append_drop]

/-- How a run of reads of a stream stands: it has a first part of the contents, all of them
if the source has ended or failed, and each read without end has brought a byte. -/
structure Drained (stream : ByteStream σ) (s : σ) (reads : Nat) (bytes : Bytes)
    (verdict : ByteSource.Verdict) : Prop where
  part : bytes <+: stream.rest s
  finished : verdict = .finished → bytes = stream.rest s ∧ stream.failure s = none
  failed : ∀ e, verdict = .failed e → bytes = stream.rest s ∧ stream.failure s = some e
  unfinished : verdict = .unfinished → reads ≤ bytes.length

theorem drained (stream : ByteStream σ) (s : σ) {capacities : List Nat}
    (hcapacities : ∀ c ∈ capacities, 0 < c) :
    Drained stream s capacities.length (stream.drain capacities s).1 (stream.drain capacities s).2 := by
  induction capacities generalizing s with
  | nil =>
    exact {
      part := List.nil_prefix
      finished := fun h => by cases h
      failed := fun e h => by cases h
      unfinished := fun _ => le_rfl }
  | cons capacity capacities ih =>
    rw [ByteSource.drain]
    rcases stream_read stream s (hcapacities capacity (by simp)) with
      ⟨hrest, hends, s', hread⟩ | ⟨hrest, e, s', hfails, hread⟩ | ⟨b, bytes, s', hread, hrest, hsame⟩
    · rw [hread]
      exact {
        part := List.nil_prefix
        finished := fun _ => ⟨hrest.symm, hends⟩
        failed := fun e h => by cases h
        unfinished := fun h => by cases h }
    · rw [hread]
      exact {
        part := List.nil_prefix
        finished := fun h => by cases h
        failed := fun e' h => by
          cases h
          exact ⟨hrest.symm, hfails⟩
        unfinished := fun h => by cases h }
    · have hothers := ih s' fun c hc => hcapacities c (by simp [hc])
      rw [hread]
      dsimp only
      exact {
        part := by
          rw [hrest]
          exact (List.prefix_append_right_inj _).mpr hothers.part
        finished := fun h => by
          obtain ⟨hall, hends⟩ := hothers.finished h
          rw [hall, hrest, ← hsame]
          exact ⟨rfl, hends⟩
        failed := fun e h => by
          obtain ⟨hall, hfails⟩ := hothers.failed e h
          rw [hall, hrest, ← hsame]
          exact ⟨rfl, hfails⟩
        unfinished := fun h => by
          have hlong := hothers.unfinished h
          rw [List.length_append, List.length_cons, List.length_cons]
          omega }

/-- The pieces of a stream are its contents, whatever they are cut to. -/
theorem presents_stream (h : stream.Presents capacity s pieces failure) (hcapacity : 0 < capacity) :
    pieces.flatten = stream.rest s ∧ failure = stream.failure s ∧ ∀ piece ∈ pieces, piece ≠ [] := by
  induction h with
  | @ended s s' hread =>
    rcases stream_read stream s hcapacity with
      ⟨hrest, hends, t, hread'⟩ | ⟨-, e, t, -, hread'⟩ | ⟨b, bytes, t, hread', -, -⟩
    · exact ⟨hrest.symm, hends.symm, by simp⟩
    · rw [hread] at hread'
      cases hread'
    · rw [hread] at hread'
      cases hread'
  | @failed s s' e hread =>
    rcases stream_read stream s hcapacity with
      ⟨-, -, t, hread'⟩ | ⟨hrest, e', t, hfails, hread'⟩ | ⟨b, bytes, t, hread', -, -⟩
    · rw [hread] at hread'
      cases hread'
    · rw [hread] at hread'
      cases hread'
      exact ⟨hrest.symm, hfails.symm, by simp⟩
    · rw [hread] at hread'
      cases hread'
  | @piece s s' b bytes pieces failure hread hothers ih =>
    obtain ⟨hflat, hfailure, hne⟩ := ih
    rcases stream_read stream s hcapacity with
      ⟨-, -, t, hread'⟩ | ⟨-, e', t, -, hread'⟩ | ⟨b', bytes', t, hread', hrest, hsame⟩
    · rw [hread] at hread'
      cases hread'
    · rw [hread] at hread'
      cases hread'
    · rw [hread] at hread'
      cases hread'
      refine ⟨by rw [List.flatten_cons, hflat, hrest], hfailure.trans hsame, ?_⟩
      simpa using hne

/-- Every stream comes to its end in pieces. -/
theorem exists_presents (stream : ByteStream σ) (s : σ) (hcapacity : 0 < capacity) :
    ∃ pieces failure, stream.Presents capacity s pieces failure := by
  generalize hlength : (stream.rest s).length = n
  induction n using Nat.strong_induction_on generalizing s with
  | _ n ih =>
    rcases stream_read stream s hcapacity with
      ⟨-, -, s', hread⟩ | ⟨-, e, s', -, hread⟩ | ⟨b, bytes, s', hread, hrest, -⟩
    · exact ⟨_, _, .ended hread⟩
    · exact ⟨_, _, .failed hread⟩
    · have hless : (stream.rest s').length < n := by
        rw [← hlength, hrest, List.length_append, List.length_cons]
        omega
      obtain ⟨pieces, failure, hpieces⟩ := ih _ hless s' rfl
      exact ⟨_, _, .piece hread hpieces⟩

end Reading

end FileService.Streams
