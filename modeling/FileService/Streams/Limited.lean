import FileService.Streams.Source

/-!
# Limited sources

When the limit has been read, one more byte is asked for: a source that ends
there is within the limit. That byte is never handed over.
-/
namespace FileService.Streams
open FileService.Common FileService.Domain

variable {σ τ : Type}

/-- `LimitedSource` -/
structure LimitedSource (σ : Type) where
  inner : σ
  limit : Int
  what : String
  read : Int := 0
  exceeded : Bool := false
deriving DecidableEq, Repr

namespace LimitedSource

def refusal (l : LimitedSource σ) : Error :=
  err .invalidArgument (l.what ++ " 已超限，拒绝继续读取")

def excess (l : LimitedSource σ) : Error :=
  err .invalidArgument (l.what ++ " 超过上限 " ++ toString l.limit ++ " 字节（读到第 " ++
    toString (l.read + 1) ++ " 字节）")

/-- Ask for one byte more than the limit. -/
def probe (source : ByteSource σ) (l : LimitedSource σ) : Result Bytes × LimitedSource σ :=
  match source.read 1 l.inner with
  | (.error e, s) => (.error e, { l with inner := s })
  | (.ok [], s) => (.ok [], { l with inner := s })
  | (.ok (_ :: _), s) => (.error l.excess, { l with inner := s, exceeded := true })

def readInner (source : ByteSource σ) (l : LimitedSource σ) (capacity : Nat) :
    Result Bytes × LimitedSource σ :=
  match source.read capacity l.inner with
  | (.error e, s) => (.error e, { l with inner := s })
  | (.ok bytes, s) => (.ok bytes, { l with inner := s, read := l.read + bytes.length })

/-- `Read` -/
def readFrom (source : ByteSource σ) (capacity : Nat) (l : LimitedSource σ) :
    Result Bytes × LimitedSource σ :=
  if l.exceeded = true then (.error l.refusal, l)
  else if 0 < l.limit then
    let remaining := l.limit - l.read
    if remaining ≤ 0 then l.probe source
    else l.readInner source (min capacity remaining.toNat)
  else l.readInner source capacity

end LimitedSource

open LimitedSource

theorem readInner_fits {source : ByteSource σ} {l l' : LimitedSource σ} {capacity : Nat}
    {bytes : Bytes} (h : l.readInner source capacity = (.ok bytes, l')) : bytes.length ≤ capacity := by
  unfold readInner at h
  split at h
  · cases h
  · rename_i hread
    cases h
    exact source.fits hread

/-- A limited source is a source. -/
def ByteSource.limited (source : ByteSource σ) : ByteSource (LimitedSource σ) where
  read := readFrom source
  fits := by
    intro capacity l l' bytes h
    unfold readFrom at h
    dsimp only at h
    split_ifs at h
    · cases h
    · unfold probe at h
      split at h <;> cases h
      simp
    · exact (readInner_fits h).trans (min_le_left _ _)
    · exact readInner_fits h

/-! ## Reading a stream -/

section Reading
variable {stream : ByteStream σ} {l : LimitedSource σ} {capacity : Nat}

/-- What is left of the limit. -/
def LimitedSource.left (l : LimitedSource σ) : Nat := (l.limit - l.read).toNat

/-- Nothing has been refused, and no more than the limit has been read. -/
structure LimitedSource.Within (l : LimitedSource σ) : Prop where
  limited : 0 < l.limit
  opened : l.exceeded = false
  read_le : l.read ≤ l.limit

theorem limited_read (stream : ByteStream σ) (h : l.Within) (hcapacity : 0 < capacity) :
    (stream.rest l.inner = [] ∧ ∃ l', l'.exceeded = false ∧ stream.limited.read capacity l =
      (match stream.failure l.inner with
        | none => .ok []
        | some e => .error e, l')) ∨
    (stream.rest l.inner ≠ [] ∧ l.left = 0 ∧ ∃ e l', l'.exceeded = true ∧
      stream.limited.read capacity l = (.error e, l')) ∨
    ∃ b bytes l', stream.limited.read capacity l = (.ok (b :: bytes), l') ∧ l'.Within ∧
      stream.rest l.inner = b :: bytes ++ stream.rest l'.inner ∧
      stream.failure l'.inner = stream.failure l.inner ∧
      l.left = (b :: bytes).length + l'.left := by
  have hopen : ¬l.exceeded = true := by simp [h.opened]
  have hlimited := h.limited
  have hle := h.read_le
  change _ ∧ (∃ l', _ ∧ readFrom stream.toByteSource capacity l = _) ∨
    _ ∧ _ ∧ (∃ e l', _ ∧ readFrom stream.toByteSource capacity l = _) ∨
    ∃ b bytes l', readFrom stream.toByteSource capacity l = _ ∧ _
  unfold readFrom
  rw [if_neg hopen, if_pos hlimited]
  dsimp only
  by_cases hfull : l.limit - l.read ≤ 0
  · rw [if_pos hfull, probe]
    rcases stream_read stream l.inner Nat.one_pos with
      ⟨hrest, hfailure, s', hread⟩ | ⟨hrest, e, s', hfailure, hread⟩ | ⟨b, bytes, s', hread, hrest, -⟩
    · rw [hread, hfailure]
      exact .inl ⟨hrest, { l with inner := s' }, h.opened, rfl⟩
    · rw [hread, hfailure]
      exact .inl ⟨hrest, { l with inner := s' }, h.opened, rfl⟩
    · rw [hread]
      have hnone : l.left = 0 := by
        unfold LimitedSource.left
        omega
      exact .inr (.inl ⟨by simp [hrest], hnone, _, _, rfl, rfl⟩)
  · rw [if_neg hfull, readInner]
    have hasked : 0 < min capacity (l.limit - l.read).toNat := by omega
    rcases stream_read stream l.inner hasked with
      ⟨hrest, hfailure, s', hread⟩ | ⟨hrest, e, s', hfailure, hread⟩ |
        ⟨b, bytes, s', hread, hrest, hfailure⟩
    · rw [hread, hfailure]
      exact .inl ⟨hrest, { l with inner := s', read := l.read + ([] : Bytes).length }, h.opened, rfl⟩
    · rw [hread, hfailure]
      exact .inl ⟨hrest, { l with inner := s' }, h.opened, rfl⟩
    · have hfits := stream.fits hread
      rw [hread]
      refine .inr (.inr ⟨b, bytes, _, rfl, ?_, hrest, hfailure, ?_⟩)
      · exact {
          limited := hlimited
          opened := h.opened
          read_le := by
            dsimp only
            omega }
      · unfold LimitedSource.left
        dsimp only
        omega

end Reading

/-! ## Pumping -/

section Pumping
variable {stream : ByteStream σ} {sink : SafeSink τ} {l : LimitedSource σ} {capacity fuel : Nat}

/-- How the pump ends: the sink has the contents up to the limit, and it is an error if there
are more of them, or if they end in one. -/
structure Pumped (stream : ByteStream σ) (sink : SafeSink τ) (l : LimitedSource σ) (total : Nat)
    (t : τ) (result : Result Nat) (l' : LimitedSource σ) (t' : τ) : Prop where
  received : sink.received t' = sink.received t ++ (stream.rest l.inner).take l.left
  exceeded : l'.exceeded = decide (l.left < (stream.rest l.inner).length)
  beyond : l.left < (stream.rest l.inner).length → ∃ e, result = .error e
  within : (stream.rest l.inner).length ≤ l.left → result =
    match stream.failure l.inner with
    | none => .ok (total + (stream.rest l.inner).length)
    | some e => .error e

theorem pumpLoop_limited (stream : ByteStream σ) (sink : SafeSink τ) (h : l.Within)
    (hcapacity : 0 < capacity) (hfuel : l.left < fuel) (total : Nat) (t : τ) :
    ∃ result l' t', stream.limited.pumpLoop sink.toByteSink capacity fuel total l t =
      some (result, l', t') ∧ Pumped stream sink l total t result l' t' := by
  induction fuel generalizing l total t with
  | zero => omega
  | succ fuel ih =>
    rw [ByteSource.pumpLoop]
    rcases limited_read stream h hcapacity with
      ⟨hrest, l', hopen, hread⟩ | ⟨hrest, hleft, e, l', hexceeded, hread⟩ |
        ⟨b, bytes, l', hread, hwithin, hrest, hfailure, hleft⟩
    · have hfits : ¬l.left < (stream.rest l.inner).length := by simp [hrest]
      obtain ⟨hclosed, hkept⟩ := sink.close_ok t
      rw [hread]
      cases hfailure : stream.failure l.inner with
      | none =>
        generalize hclose : sink.close t = answer at *
        obtain ⟨closed, t'⟩ := answer
        obtain rfl : closed = .ok () := hclosed
        exact ⟨_, _, t', rfl, {
          received := by simp [hrest, hkept]
          exceeded := by simp [hfits, hopen]
          beyond := fun hover => absurd hover hfits
          within := fun _ => by simp [hrest, hfailure] }⟩
      | some e =>
        exact ⟨_, _, t, rfl, {
          received := by simp [hrest]
          exceeded := by simp [hfits, hopen]
          beyond := fun hover => absurd hover hfits
          within := fun _ => by simp [hfailure] }⟩
    · rw [hread]
      have hmore : l.left < (stream.rest l.inner).length := by
        have := List.length_pos_iff.mpr hrest
        omega
      exact ⟨_, _, _, rfl, {
        received := by simp [hleft]
        exceeded := by simp [hmore, hexceeded]
        beyond := fun _ => ⟨e, rfl⟩
        within := fun hle => absurd hle (by omega) }⟩
    · obtain ⟨hwritten, hkept⟩ := sink.write_ok (b :: bytes) t
      generalize hwrite : sink.write (b :: bytes) t = answer at *
      obtain ⟨written, t'⟩ := answer
      obtain rfl : written = .ok () := hwritten
      rw [List.length_cons] at hleft
      obtain ⟨result, l'', t'', hloop, hpumped⟩ :=
        ih hwithin (by omega) (total + (bytes.length + 1)) t'
      have hlength : (stream.rest l.inner).length =
          bytes.length + 1 + (stream.rest l'.inner).length := by
        rw [hrest, List.length_append, List.length_cons]
      refine ⟨result, l'', t'', ?_, ?_⟩
      · rw [hread]
        dsimp only
        rw [hwrite]
        exact hloop
      · exact {
          received := by
            have htake : (b :: bytes ++ stream.rest l'.inner).take ((b :: bytes).length + l'.left) =
                b :: bytes ++ (stream.rest l'.inner).take l'.left := List.take_length_add_append _
            rw [hpumped.received, hkept, hrest, hleft, ← List.length_cons (a := b), htake,
              List.append_assoc]
          exceeded := by
            rw [hpumped.exceeded, hlength, hleft]
            simp
          beyond := fun hover => hpumped.beyond (by omega)
          within := fun hle => by
            rw [hpumped.within (by omega), hfailure, hlength]
            simp only [Nat.add_assoc] }

/-- A source that has failed for its size goes on failing. -/
theorem reads_exceeded {l : LimitedSource σ} (source : ByteSource σ) (h : l.exceeded = true)
    (capacities : List Nat) : ∀ r ∈ source.limited.reads capacities l, ∃ e, r = .error e := by
  have hread : ∀ capacity, source.limited.read capacity l = (.error l.refusal, l) := by
    intro capacity
    change readFrom source capacity l = _
    rw [readFrom, if_pos h]
  induction capacities with
  | nil => simp [ByteSource.reads]
  | cons capacity capacities ih =>
    intro r hr
    rw [ByteSource.reads, hread] at hr
    rcases List.mem_cons.mp hr with rfl | hr
    · exact ⟨_, rfl⟩
    · exact ih r hr

/-- The pump succeeds just when the contents end well and are within the limit, and then the
sink has all of them; it never has more than the limit. A source that has failed for its size
goes on failing. -/
theorem limit_is_exact (stream : ByteStream σ) (sink : SafeSink τ) (s : σ) (t : τ) (limit : Int)
    (what : String) (bufferSize : Nat) (hlimit : 0 < limit) :
    (∃ result l t', (∀ fuel : Nat, limit < fuel →
        stream.limited.pumpTo sink.toByteSink bufferSize fuel { inner := s, limit, what } t =
          some (result, l, t')) ∧
      ((∃ total, result = .ok total) ↔
        stream.failure s = none ∧ ((stream.rest s).length : Int) ≤ limit) ∧
      (∀ total, result = .ok total → total = (stream.rest s).length ∧
        sink.received t' = sink.received t ++ stream.rest s) ∧
      (∃ delivered, sink.received t' = sink.received t ++ delivered ∧
        delivered <+: stream.rest s ∧ (delivered.length : Int) ≤ limit) ∧
      (l.exceeded = true ↔ limit < (stream.rest s).length)) ∧
    ∀ l : LimitedSource σ, l.exceeded = true →
      ∀ capacities, ∀ r ∈ stream.limited.reads capacities l, ∃ e, r = .error e := by
  refine ⟨?_, fun l hexceeded => reads_exceeded stream.toByteSource hexceeded⟩
  obtain ⟨n, rfl⟩ := Int.eq_ofNat_of_zero_le hlimit.le
  have hleft : ({ inner := s, limit := (n : Int), what } : LimitedSource σ).left = n := by
    simp [LimitedSource.left]
  have hwithin : ({ inner := s, limit := (n : Int), what } : LimitedSource σ).Within :=
    { limited := hlimit, opened := rfl, read_le := hlimit.le }
  have hcapacity : 0 < if bufferSize = 0 then defaultBufferSize else bufferSize := by
    unfold defaultBufferSize
    split_ifs <;> omega
  obtain ⟨result, l, t', hloop, hpumped⟩ :=
    pumpLoop_limited stream sink hwithin hcapacity (Nat.lt_succ_self _) 0 t
  have hreceived := hpumped.received
  have hexceeded := hpumped.exceeded
  have hbeyond := hpumped.beyond
  have hinside := hpumped.within
  rw [hleft] at hloop hreceived hexceeded hbeyond hinside
  dsimp only at hreceived hexceeded hbeyond hinside
  have hsucceeds : ∀ total, result = .ok total →
      stream.failure s = none ∧ (stream.rest s).length ≤ n := by
    rintro total rfl
    have hfits : (stream.rest s).length ≤ n := by
      by_contra hmore
      obtain ⟨e, he⟩ := hbeyond (by omega)
      cases he
    have hends := hinside hfits
    refine ⟨?_, hfits⟩
    cases hfailure : stream.failure s with
    | none => rfl
    | some e => simp [hfailure] at hends
  refine ⟨result, l, t', ?_, ?_, ?_, ?_, ?_⟩
  · intro fuel hfuel
    exact stream.limited.pumpLoop_mono (by omega) hloop
  · constructor
    · rintro ⟨total, htotal⟩
      have hends := (hsucceeds total htotal).1
      exact ⟨hends, by have := (hsucceeds total htotal).2; omega⟩
    · rintro ⟨hends, hfits⟩
      have hsuccess := hinside (by omega)
      rw [hends] at hsuccess
      exact ⟨_, hsuccess⟩
  · intro total htotal
    obtain ⟨hends, hfits⟩ := hsucceeds total htotal
    have hsuccess := hinside hfits
    rw [htotal, hends] at hsuccess
    exact ⟨by simpa using hsuccess, by rw [hreceived, List.take_of_length_le hfits]⟩
  · exact ⟨_, hreceived, List.take_prefix _ _, by simp⟩
  · rw [hexceeded]
    simp

/-- A stream that hands out one byte at a time. -/
def oneByOne : ByteStream Bytes where
  read
    | _ + 1, b :: bytes => (.ok [b], bytes)
    | _, bytes => (.ok [], bytes)
  fits := by
    intro capacity s s' bytes h
    split at h <;> cases h <;> simp
  rest bytes := bytes
  failure _ := none
  serves := by
    intro capacity s hcapacity
    obtain ⟨k, rfl⟩ : ∃ k, capacity = k + 1 := ⟨capacity - 1, by omega⟩
    cases s with
    | nil => exact ⟨rfl, rfl⟩
    | cons b bytes => exact ⟨1, Nat.one_pos, rfl, rfl⟩

/-- A sink that keeps everything. -/
def collector : SafeSink Bytes where
  write bytes t := (.ok (), t ++ bytes)
  close t := (.ok (), t)
  received t := t
  write_ok _ _ := ⟨rfl, rfl⟩
  close_ok _ := ⟨rfl, rfl⟩

theorem three_of_three : ∃ l, oneByOne.limited.pumpTo collector.toByteSink 0 4
    { inner := [1, 2, 3], limit := 3, what := "body" } [] = some (.ok 3, l, [1, 2, 3]) := by
  obtain ⟨⟨result, l, t, hpump, hsucceeds, hall, -, -⟩, -⟩ :=
    limit_is_exact oneByOne collector [1, 2, 3] [] 3 "body" 0 (by decide)
  obtain ⟨total, rfl⟩ := hsucceeds.mpr ⟨rfl, by decide⟩
  obtain ⟨rfl, hreceived⟩ := hall total rfl
  obtain rfl : t = [1, 2, 3] := hreceived
  exact ⟨l, hpump 4 (by decide)⟩

end Pumping

end FileService.Streams
