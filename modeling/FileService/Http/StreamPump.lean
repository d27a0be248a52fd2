import FileService.Http.ControlPlane
import FileService.Streams.Source

/-!
# The provider of a body

The library asks the pump for parts of the body in any order it likes. The pump
keeps count of where its source stands, seeks or reads on where another part is
asked for, and gives up for good at the first failure.
-/
namespace FileService.Http.Provider
open FileService.Common FileService.Domain

variable {σ : Type}

/-- `ByteSource` with `Seekable` and `Seek`. -/
structure SeekableSource (σ : Type) extends Streams.ByteSource σ where
  seekable : Bool
  seek : Int → σ → Result Unit × σ

/-- A source that stands somewhere in its contents: a read hands out a next part of any length
and goes on behind it, and a seek that succeeds goes where it was told to. -/
structure PositionedSource (σ : Type) (content : Bytes) extends SeekableSource σ where
  position : σ → Nat
  reads : ∀ {capacity : Nat} {s s' : σ} {bytes : Bytes}, read capacity s = (.ok bytes, s') →
    bytes <+: content.drop (position s) ∧ position s' = position s + bytes.length
  seeks : ∀ {target : Int} {s s' : σ}, seek target s = (.ok (), s') → (position s' : Int) = target

/-! ## The pump -/

/-- `StreamPump`, with the state of its source. -/
structure StreamPump (σ : Type) where
  state : σ
  pos : Int := 0
  failed : Bool := false

/-- One call of the provider, with what the sink says to bytes. -/
structure ProviderCall where
  offset : UInt64
  length : UInt64
  accepts : Bytes → Bool := fun _ => true

/-- What a call returned and what it gave to the sink. -/
structure Served where
  ok : Bool
  written : Option Bytes := none
deriving DecidableEq, Repr

/-- `static_cast<std::int64_t>` -/
def asInt64 (n : UInt64) : Int := n.toBitVec.toInt

namespace SeekableSource
variable (source : SeekableSource σ)

/-- Read on to `target` and throw the bytes away. -/
def skip (target pos : Int) (s : σ) : Bool × Int × σ :=
  if pos < target then
    match source.read (min pumpBuffer (target - pos).toNat) s with
    | (.error _, s') => (false, pos, s')
    | (.ok [], s') => (false, pos, s')
    | (.ok (_ :: bytes), s') => skip target (pos + (bytes.length + 1)) s'
  else (true, pos, s)
termination_by (target - pos).toNat

/-- `JumpTo` -/
def jumpTo (pump : StreamPump σ) (target : Int) : Bool × StreamPump σ :=
  if source.seekable = true then
    match source.seek target pump.state with
    | (.error _, s) => (false, { pump with state := s })
    | (.ok _, s) => (true, { pump with state := s, pos := target })
  else if target < pump.pos then (false, pump)
  else
    let (reached, pos, s) := source.skip target pump.pos pump.state
    (reached, { pump with state := s, pos })

/-- The read and the write of a call, from where the pump stands. -/
def serve (pump : StreamPump σ) (call : ProviderCall) : Served × StreamPump σ :=
  let want := min call.length.toNat pumpBuffer
  if want = 0 then ({ ok := true }, pump)
  else
    match source.read want pump.state with
    | (.error _, s) => ({ ok := false }, { pump with state := s, failed := true })
    | (.ok [], s) => ({ ok := false }, { pump with state := s, failed := true })
    | (.ok (b :: bytes), s) =>
      let pump := { pump with state := s, pos := pump.pos + (bytes.length + 1) }
      if call.accepts (b :: bytes) = true then ({ ok := true, written := some (b :: bytes) }, pump)
      else ({ ok := false, written := some (b :: bytes) }, { pump with failed := true })

/-- `operator()` -/
def provide (pump : StreamPump σ) (call : ProviderCall) : Served × StreamPump σ :=
  if pump.failed = true then ({ ok := false }, pump)
  else if asInt64 call.offset = pump.pos then source.serve pump call
  else
    match source.jumpTo pump (asInt64 call.offset) with
    | (false, pump) => ({ ok := false }, { pump with failed := true })
    | (true, pump) => source.serve pump call

/-- A call with the state the pump was in. -/
structure Turn (σ : Type) where
  call : ProviderCall
  before : StreamPump σ
  served : Served

/-- One call after the other. -/
def turns (pump : StreamPump σ) : List ProviderCall → List (Turn σ)
  | [] => []
  | call :: calls =>
    let (served, pump') := source.provide pump call
    { call, before := pump, served } :: turns pump' calls

end SeekableSource

section Casts
variable {n : UInt64}

theorem asInt64_le : asInt64 n ≤ n.toNat := by
  have hbits : n.toBitVec.toNat = n.toNat := rfl
  rw [asInt64, BitVec.toInt_eq_toNat_cond]
  omega

theorem asInt64_of_nonneg (h : 0 ≤ asInt64 n) : asInt64 n = n.toNat := by
  have hbits : n.toBitVec.toNat = n.toNat := rfl
  have hsmall := n.toBitVec.isLt
  rw [asInt64, BitVec.toInt_eq_toNat_cond] at h ⊢
  omega

end Casts

/-! ## What one call does -/

/-- A success has written a part of the contents that starts at the offset. -/
def RightBytes (content : Bytes) (call : ProviderCall) (served : Served) : Prop :=
  served.ok = true → ∃ k, 0 < k ∧ k ≤ call.length.toNat ∧
    call.offset.toNat + k ≤ content.length ∧
    served.written = some ((content.drop call.offset.toNat).take k)

namespace PositionedSource
variable {content : Bytes} (source : PositionedSource σ content)

/-- Unless it has failed, the pump knows where its source stands. -/
def Tracks (pump : StreamPump σ) : Prop :=
  pump.failed = false → pump.pos = source.position pump.state

variable {source} {pump pump' : StreamPump σ} {call : ProviderCall} {served : Served}
variable {target pos pos' : Int} {s s' : σ} {reached : Bool}

/-- The induction is on the reads of the skip; none of them goes beyond the target. -/
theorem skip_spec (h : source.skip target pos s = (true, pos', s'))
    (hpos : pos = source.position s) (htarget : pos ≤ target) :
    pos' = target ∧ pos' = source.position s' := by
  fun_induction SeekableSource.skip source.toSeekableSource target pos s with
  | case1 pos s hless e s₁ hread => cases h
  | case2 pos s hless s₁ hread => cases h
  | case3 pos s hless b bytes s₁ hread ih =>
    have hfits := source.fits hread
    obtain ⟨-, hmoved⟩ := source.reads hread
    rw [List.length_cons] at hfits hmoved
    have hnear : bytes.length + 1 ≤ (target - pos).toNat := hfits.trans (min_le_right _ _)
    exact ih h (by omega) (by omega)
  | case4 pos s hless =>
    obtain ⟨rfl, rfl⟩ : pos = pos' ∧ s = s' := by simpa using h
    exact ⟨by omega, hpos⟩

theorem jumpTo_spec (h : source.jumpTo pump target = (true, pump'))
    (htracks : pump.pos = source.position pump.state) :
    pump'.pos = target ∧ pump'.pos = source.position pump'.state ∧
      (source.seekable = false → pump.pos ≤ target) := by
  unfold SeekableSource.jumpTo at h
  by_cases hseekable : source.seekable = true
  · rw [if_pos hseekable] at h
    rcases hseek : source.seek target pump.state with ⟨result, s⟩
    rw [hseek] at h
    cases result with
    | error e => cases h
    | ok u =>
      obtain rfl : { pump with state := s, pos := target } = pump' := by simpa using h
      exact ⟨rfl, (source.seeks hseek).symm, by simp [hseekable]⟩
  · rw [if_neg hseekable] at h
    by_cases hback : target < pump.pos
    · rw [if_pos hback] at h
      cases h
    · rw [if_neg hback] at h
      rcases hskip : source.skip target pump.pos pump.state with ⟨reached, pos, s⟩
      rw [hskip] at h
      obtain ⟨rfl, rfl⟩ : reached = true ∧ { pump with state := s, pos } = pump' := by
        simpa using h
      obtain ⟨hend, hstands⟩ := skip_spec hskip htracks (not_lt.mp hback)
      exact ⟨hend, hstands, fun _ => not_lt.mp hback⟩

/-- What a call does and returns. -/
structure Provides (source : PositionedSource σ content) (pump : StreamPump σ)
    (call : ProviderCall) (served : Served) (pump' : StreamPump σ) : Prop where
  tracks : source.Tracks pump'
  bytes : RightBytes content call served
  forward : source.seekable = false → (call.offset.toNat : Int) < pump.pos → served.ok = false
  fails : served.ok = false → pump'.failed = true
  silent : pump.failed = true → served = { ok := false } ∧ pump' = pump

theorem serve_spec (h : source.serve pump call = (served, pump')) (hlength : call.length ≠ 0)
    (hoffset : asInt64 call.offset = pump.pos)
    (htracks : pump.pos = source.position pump.state) :
    source.Tracks pump' ∧ RightBytes content call served ∧
      (served.ok = false → pump'.failed = true) := by
  have hsome : 0 < call.length.toNat :=
    Nat.pos_of_ne_zero fun h => hlength (UInt64.toNat_inj.mp h)
  have hwant : min call.length.toNat pumpBuffer ≠ 0 := by
    have hbuffer : 0 < pumpBuffer := by decide
    omega
  unfold SeekableSource.serve at h
  dsimp only at h
  rw [if_neg hwant] at h
  rcases hread : source.read (min call.length.toNat pumpBuffer) pump.state with ⟨result, s⟩
  rw [hread] at h
  rcases result with e | _ | ⟨b, bytes⟩
  · obtain ⟨rfl, rfl⟩ := Prod.mk.inj h
    exact ⟨nofun, nofun, fun _ => rfl⟩
  · obtain ⟨rfl, rfl⟩ := Prod.mk.inj h
    exact ⟨nofun, nofun, fun _ => rfl⟩
  · obtain ⟨hpart, hmoved⟩ := source.reads hread
    have hfits := source.fits hread
    dsimp only at h
    by_cases haccepts : call.accepts (b :: bytes) = true
    · rw [if_pos haccepts] at h
      obtain ⟨rfl, rfl⟩ := Prod.mk.inj h
      refine ⟨fun _ => ?_, fun _ => ?_, nofun⟩
      · simp only [hmoved, htracks, List.length_cons, Nat.cast_add, Nat.cast_one]
      · have hstart : source.position pump.state = call.offset.toNat := by
          have hnonneg : 0 ≤ asInt64 call.offset := by omega
          have hcast := asInt64_of_nonneg hnonneg
          omega
        rw [hstart] at hpart
        have hinside := hpart.length_le
        rw [List.length_drop, List.length_cons] at hinside
        refine ⟨bytes.length + 1, Nat.succ_pos _, hfits.trans (min_le_left _ _), by omega, ?_⟩
        exact congrArg some (List.prefix_iff_eq_take.mp hpart)
    · rw [if_neg haccepts] at h
      obtain ⟨rfl, rfl⟩ := Prod.mk.inj h
      exact ⟨nofun, nofun, fun _ => rfl⟩

theorem provide_spec (h : source.provide pump call = (served, pump')) (hlength : call.length ≠ 0)
    (htracks : source.Tracks pump) : source.Provides pump call served pump' := by
  unfold SeekableSource.provide at h
  by_cases hfailed : pump.failed = true
  · rw [if_pos hfailed] at h
    obtain ⟨rfl, rfl⟩ := Prod.mk.inj h
    exact ⟨htracks, nofun, fun _ _ => rfl, fun _ => hfailed, fun _ => ⟨rfl, rfl⟩⟩
  · rw [if_neg hfailed] at h
    have halive : pump.failed = false := by simpa using hfailed
    have hstands := htracks halive
    have hsilent : pump.failed = true → served = { ok := false } ∧ pump' = pump :=
      fun h => absurd h hfailed
    by_cases hhere : asInt64 call.offset = pump.pos
    · rw [if_pos hhere] at h
      obtain ⟨hafter, hbytes, hfails⟩ := serve_spec h hlength hhere hstands
      have hle := asInt64_le (n := call.offset)
      exact ⟨hafter, hbytes, fun _ hback => absurd hback (by omega), hfails, hsilent⟩
    · rw [if_neg hhere] at h
      rcases hjump : source.jumpTo pump (asInt64 call.offset) with ⟨reached, pump₁⟩
      rw [hjump] at h
      cases reached with
      | false =>
        obtain ⟨rfl, rfl⟩ := Prod.mk.inj h
        exact ⟨nofun, nofun, fun _ _ => rfl, fun _ => rfl, hsilent⟩
      | true =>
        obtain ⟨htarget, hstands', hforward⟩ := jumpTo_spec hjump hstands
        obtain ⟨hafter, hbytes, hfails⟩ := serve_spec h hlength htarget.symm hstands'
        have hle := asInt64_le (n := call.offset)
        refine ⟨hafter, hbytes, fun hseekable hback => ?_, hfails, hsilent⟩
        exact absurd (hforward hseekable) (by omega)

/-! ## Every sequence of calls -/

variable {calls : List ProviderCall}

@[simp] theorem calls_turns : (source.turns pump calls).map SeekableSource.Turn.call = calls := by
  induction calls generalizing pump with
  | nil => rfl
  | cons call calls ih =>
    rw [SeekableSource.turns, List.map_cons, ih]

/-- A pump that has failed refuses every call and stays as it is. -/
theorem turns_of_failed (h : pump.failed = true) :
    ∀ turn ∈ source.turns pump calls, turn.served = { ok := false } := by
  induction calls with
  | nil => simp [SeekableSource.turns]
  | cons call calls ih =>
    have hcall : source.provide pump call = ({ ok := false }, pump) := by
      rw [SeekableSource.provide, if_pos h]
    rw [SeekableSource.turns, hcall]
    exact List.forall_mem_cons.mpr ⟨rfl, ih⟩

/-- What one turn must have done. -/
structure Delivers (source : PositionedSource σ content) (turn : SeekableSource.Turn σ) : Prop where
  bytes : RightBytes content turn.call turn.served
  forward : source.seekable = false → (turn.call.offset.toNat : Int) < turn.before.pos →
    turn.served.ok = false

/-- The induction is on the calls; each keeps count of where the source stands. -/
theorem turns_spec (hlength : ∀ call ∈ calls, call.length ≠ 0) (htracks : source.Tracks pump) :
    (∀ turn ∈ source.turns pump calls, source.Delivers turn) ∧
      (source.turns pump calls).Pairwise fun earlier later =>
        earlier.served.ok = false → later.served = { ok := false } := by
  induction calls generalizing pump with
  | nil => simp [SeekableSource.turns]
  | cons call calls ih =>
    obtain ⟨hcall, hcalls⟩ := List.forall_mem_cons.mp hlength
    rcases hprovide : source.provide pump call with ⟨served, pump'⟩
    have hstep := provide_spec hprovide hcall htracks
    obtain ⟨hdelivers, hlatched⟩ := ih hcalls hstep.tracks
    rw [SeekableSource.turns, hprovide]
    constructor
    · exact List.forall_mem_cons.mpr ⟨⟨hstep.bytes, hstep.forward⟩, hdelivers⟩
    · refine List.pairwise_cons.mpr ⟨fun later hlater hfalse => ?_, hlatched⟩
      exact turns_of_failed (hstep.fails hfalse) later hlater

/-- The calls of a pump on a source at its start: every success has written the right bytes, a
source that can only be read on is not asked to go back, and the first failure is the last word. -/
theorem turns_deliver (s : σ) (hstart : source.position s = 0)
    (hlength : ∀ call ∈ calls, call.length ≠ 0) :
    (source.turns { state := s } calls).map SeekableSource.Turn.call = calls ∧
    (∀ turn ∈ source.turns { state := s } calls, source.Delivers turn) ∧
      (source.turns { state := s } calls).Pairwise fun earlier later =>
        earlier.served.ok = false → later.served = { ok := false } := by
  have htracks : source.Tracks { state := s } := fun _ => by simp [hstart]
  exact ⟨calls_turns, turns_spec hlength htracks⟩

end PositionedSource

/-! ## Sources with fixed contents -/

section Fixed
variable {source : ByteSource}

/-- A source with fixed contents, with its position and the number of its reads. -/
def positioned (source : ByteSource) : PositionedSource (Nat × Nat) source.content where
  read capacity s :=
    let got := source.readAt s.1 s.2 capacity
    (.ok got, (s.1 + got.length, s.2 + 1))
  fits h := by
    obtain ⟨hgot, -⟩ := Prod.mk.inj h
    obtain rfl := Except.ok.inj hgot
    exact (readAt_length source _ _ _).trans (min_le_left _ _)
  seekable := source.seekable
  seek target s :=
    if source.seek target = true then (.ok (), (target.toNat, s.2))
    else if source.seekable = true then (.error (err .invalidArgument "Seek 越界"), s)
    else (.error (err .unimplemented "该来源不支持随机访问"), s)
  position := Prod.fst
  reads h := by
    obtain ⟨hgot, rfl⟩ := Prod.mk.inj h
    obtain rfl := Except.ok.inj hgot
    exact ⟨List.take_prefix _ _, rfl⟩
  seeks {target s s'} h := by
    by_cases hseek : source.seek target = true
    · rw [if_pos hseek] at h
      obtain ⟨-, rfl⟩ := Prod.mk.inj h
      have hnonneg : 0 ≤ target := by
        simp only [ByteSource.seek, Bool.and_eq_true, decide_eq_true_eq] at hseek
        exact hseek.1.2
      exact Int.toNat_of_nonneg hnonneg
    · rw [if_neg hseek] at h
      split at h <;> cases h

/-- Six octets in pieces of two. -/
def sixOctets (seekable : Bool) : ByteSource :=
  ⟨[10, 11, 12, 13, 14, 15], seekable, false, fun _ => 2⟩

def backAndForth : List ProviderCall :=
  [{ offset := 3, length := 3 }, { offset := 0, length := 4 }, { offset := 2, length := 1 }]

theorem turns_deliver_backAndForth :
    (∀ turn ∈ (positioned (sixOctets false)).turns { state := (0, 0) } backAndForth,
      (positioned (sixOctets false)).Delivers turn) ∧
    ((positioned (sixOctets true)).turns { state := (0, 0) } backAndForth).map
      SeekableSource.Turn.served =
        [⟨true, some [13, 14]⟩, ⟨true, some [10, 11]⟩, ⟨true, some [12]⟩] ∧
    ((positioned (sixOctets false)).turns { state := (0, 0) } backAndForth).map
      SeekableSource.Turn.served = [⟨true, some [13, 14]⟩, ⟨false, none⟩, ⟨false, none⟩] := by
  have hlength : ∀ call ∈ backAndForth, call.length ≠ 0 := by simp [backAndForth]
  refine ⟨(PositionedSource.turns_deliver (0, 0) rfl hlength).2.1, by decide, ?_⟩
  decide +kernel

/-! ## The pump of the control plane -/

variable {control : Http.StreamPump} {call : ProviderCall} {pos reads target fuel : Nat}

/-- The pump of the control plane as one on a source with its position. -/
def pumpOf (control : Http.StreamPump) : StreamPump (Nat × Nat) where
  state := (control.pos, control.reads)
  pos := control.pos
  failed := control.failed

theorem skip_positioned : (positioned source).skip target pos (pos, reads) =
    if target ≤ pos then (true, (pos : Int), (pos, reads))
    else
      let got := source.readAt pos reads (min pumpBuffer (target - pos))
      if got = [] then (false, (pos : Int), (pos, reads + 1))
      else (positioned source).skip target ((pos + got.length : Nat) : Int)
        (pos + got.length, reads + 1) := by
  rw [SeekableSource.skip]
  by_cases hend : target ≤ pos
  · rw [if_pos hend, if_neg (by omega)]
  · rw [if_neg hend, if_pos (by omega)]
    have hroom : ((target : Int) - pos).toNat = target - pos := by omega
    rw [hroom]
    dsimp only [positioned]
    generalize source.readAt pos reads (min pumpBuffer (target - pos)) = got
    cases got <;> simp

/-- The induction is on the fuel, which is more than the octets to the target. -/
theorem skip_control (control : Http.StreamPump) (hfuel : target - control.pos < fuel) :
    (control.skip target fuel = none →
      ((positioned control.source).skip target control.pos
        (control.pos, control.reads)).1 = false) ∧
    ∀ control', control.skip target fuel = some control' →
      control'.source = control.source ∧ control'.failed = control.failed ∧
        (positioned control.source).skip target control.pos (control.pos, control.reads) =
          (true, (control'.pos : Int), (control'.pos, control'.reads)) := by
  induction fuel generalizing control with
  | zero => omega
  | succ fuel ih =>
    rw [Http.StreamPump.skip, skip_positioned]
    by_cases hend : target ≤ control.pos
    · simp only [if_pos hend, reduceCtorEq, false_implies, Option.some.injEq, true_and]
      rintro control' rfl
      exact ⟨rfl, rfl, rfl⟩
    · simp only [if_neg hend]
      by_cases hgot : control.source.readAt control.pos control.reads
          (min pumpBuffer (target - control.pos)) = []
      · simp [hgot]
      · simp only [if_neg hgot]
        have hlength := List.length_pos_iff.mpr hgot
        refine ih { control with pos := _, reads := _ } ?_
        dsimp only
        omega

theorem jumpTo_control (target : Nat) (halive : control.failed = false) :
    (control.jumpTo target = none →
      ((positioned control.source).jumpTo (pumpOf control) target).1 = false) ∧
    ∀ control', control.jumpTo target = some control' →
      control'.source = control.source ∧ control'.failed = false ∧
        (positioned control.source).jumpTo (pumpOf control) target = (true, pumpOf control') := by
  have hkind : (positioned control.source).seekable = control.source.seekable := rfl
  have hstands : (pumpOf control).pos = control.pos := rfl
  rw [Http.StreamPump.jumpTo, SeekableSource.jumpTo, hkind, hstands]
  by_cases hseekable : control.source.seekable = true
  · rw [if_pos hseekable, if_pos hseekable]
    by_cases hseek : control.source.seek target = true
    · have hmoves : (positioned control.source).seek target (pumpOf control).state =
          (.ok (), (target, control.reads)) := if_pos hseek
      rw [if_pos hseek, hmoves]
      refine ⟨fun hnone => absurd hnone (by simp), ?_⟩
      rintro control' ⟨rfl⟩
      exact ⟨rfl, halive, rfl⟩
    · have hstays : (positioned control.source).seek target (pumpOf control).state =
          (.error (err .invalidArgument "Seek 越界"), (pumpOf control).state) :=
        (if_neg hseek).trans (if_pos hseekable)
      rw [if_neg hseek, hstays]
      exact ⟨fun _ => rfl, fun _ hfound => absurd hfound (by simp)⟩
  · rw [if_neg hseekable, if_neg hseekable]
    by_cases hback : target < control.pos
    · rw [if_pos hback, if_pos (by omega)]
      exact ⟨fun _ => rfl, fun _ hfound => absurd hfound (by simp)⟩
    · rw [if_neg hback, if_neg (by omega)]
      obtain ⟨hnone, hsome⟩ :=
        skip_control control (show target - control.pos < target - control.pos + 1 by omega)
      refine ⟨hnone, fun control' hfound => ?_⟩
      obtain ⟨hsource, hsame, hskip⟩ := hsome control' hfound
      refine ⟨hsource, hsame.trans halive, ?_⟩
      have hpump : (pumpOf control).state = (control.pos, control.reads) := rfl
      rw [hpump, hskip]
      simp [pumpOf, hsame]

/-- The two pumps have done the same. -/
def Same (out : Http.StreamPump × Option Bytes) (result : Served × StreamPump (Nat × Nat)) : Prop :=
  match out.2 with
  | none => out.1.failed = true ∧ result.1 = { ok := false } ∧ result.2.failed = true
  | some got => result = ({ ok := true, written := some got }, pumpOf out.1)

theorem serve_control (hlength : call.length ≠ 0) (haccepts : ∀ bytes, call.accepts bytes = true) :
    let got := control.source.readAt control.pos control.reads (min call.length.toNat pumpBuffer)
    Same (if got = [] then ({ control with failed := true }, none)
      else ({ control with pos := control.pos + got.length, reads := control.reads + 1 }, some got))
      ((positioned control.source).serve (pumpOf control) call) := by
  intro got
  have hwant : min call.length.toNat pumpBuffer ≠ 0 := by
    have hsome : call.length.toNat ≠ 0 := fun h => hlength (UInt64.toNat_inj.mp h)
    have hbuffer : 0 < pumpBuffer := by decide
    omega
  have hread : (positioned control.source).read (min call.length.toNat pumpBuffer)
      (pumpOf control).state = (.ok got, (control.pos + got.length, control.reads + 1)) := rfl
  rw [SeekableSource.serve]
  dsimp only
  rw [if_neg hwant, hread]
  cases got with
  | nil => exact ⟨rfl, rfl, rfl⟩
  | cons b bytes =>
    rw [if_neg (List.cons_ne_nil b bytes)]
    dsimp only
    rw [if_pos (haccepts _)]
    simp [Same, pumpOf]

/-- A call to the pump of the control plane does what the call does to the one it stands for. -/
theorem provide_control (hlength : call.length ≠ 0) (hoffset : call.offset.toNat < 2 ^ 63)
    (haccepts : ∀ bytes, call.accepts bytes = true) :
    Same (control.provide call.offset.toNat call.length.toNat)
      ((positioned control.source).provide (pumpOf control) call) := by
  have hcast : asInt64 call.offset = call.offset.toNat := by
    have hbits : call.offset.toBitVec.toNat = call.offset.toNat := rfl
    rw [asInt64, BitVec.toInt_eq_toNat_cond]
    omega
  have hfailed : (pumpOf control).failed = control.failed := rfl
  have hstands : (pumpOf control).pos = control.pos := rfl
  rw [Http.StreamPump.provide, SeekableSource.provide, hfailed, hcast, hstands]
  by_cases hlatched : control.failed = true
  · rw [if_pos hlatched, if_pos hlatched]
    exact ⟨hlatched, rfl, hlatched⟩
  · rw [if_neg hlatched, if_neg hlatched]
    have halive : control.failed = false := by simpa using hlatched
    by_cases hhere : call.offset.toNat = control.pos
    · rw [if_pos hhere, if_pos (by exact_mod_cast hhere)]
      exact serve_control hlength haccepts
    · rw [if_neg hhere, if_neg (by exact_mod_cast hhere)]
      obtain ⟨hnone, hsome⟩ := jumpTo_control call.offset.toNat halive
      rcases hjump : control.jumpTo call.offset.toNat with _ | control'
      · have hreached := hnone hjump
        rcases hjumped : (positioned control.source).jumpTo (pumpOf control) call.offset.toNat
          with ⟨reached, pump⟩
        rw [hjumped] at hreached
        obtain rfl : reached = false := hreached
        exact ⟨rfl, rfl, rfl⟩
      · obtain ⟨hsource, -, hjumped⟩ := hsome control' hjump
        rw [hjumped, ← hsource]
        exact serve_control hlength haccepts

end Fixed

end FileService.Http.Provider
