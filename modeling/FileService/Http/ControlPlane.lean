import FileService.Http.Dispatch
import FileService.Http.LargeFilePlane

/-!
# The control plane's downloads

The library parses the `Range` header before routing and refuses what its parser
does not know; the error handler takes some of these refusals back. Otherwise
the wrapper replaces the parsed ranges by its own, and the library frames the
body and asks the pump for it piece by piece.
-/
namespace FileService.Http
open FileService.Common FileService.Domain

/-! ## The library's range parser -/

/-- One range of the header; `-1` stands for an end that is left out. -/
def libraryRange (token : List Char) : Option (Int × Int) :=
  match token.idxOf? '-' with
  | none => none
  | some dash =>
    let lhs := token.take dash
    let rhs := token.drop (dash + 1)
    if ¬lhs.all isDigit = true ∨ ¬rhs.all isDigit = true then none
    else if int64Max < digitsValue lhs ∨ int64Max < digitsValue rhs then none
    else
      let first : Int := if lhs = [] then -1 else digitsValue lhs
      let last : Int := if rhs = [] then -1 else digitsValue rhs
      if (first = -1 ∧ last = -1) ∨ (first ≠ -1 ∧ last ≠ -1 ∧ last < first) then none
      else some (first, last)

/-- `parse_range_header` of the library; it wants the unit as it stands here. -/
def libraryRanges (header : String) : Option (List (Int × Int)) :=
  let text := header.toList
  if 7 < text.length ∧ text.take 6 = "bytes=".toList then
    let tokens := (((text.drop 6).splitOn ',').map trim).filter (· ≠ [])
    match tokens.mapM libraryRange with
    | some (r :: rs) => some (r :: rs)
    | _ => none
  else none

/-! ## The pump -/

/-- `StreamPump`: where the source stands, how often it has been read, and whether it failed. -/
structure StreamPump where
  source : ByteSource
  pos : Nat := 0
  reads : Nat := 0
  failed : Bool := false

def pumpBuffer : Nat := 64 * 1024

/-- Read on to `target` and throw the octets away; the fuel bounds the number of reads. -/
def StreamPump.skip (pump : StreamPump) (target : Nat) : Nat → Option StreamPump
  | 0 => none
  | fuel + 1 =>
    if target ≤ pump.pos then some pump
    else
      let got := pump.source.readAt pump.pos pump.reads (min pumpBuffer (target - pump.pos))
      if got = [] then none
      else { pump with pos := pump.pos + got.length, reads := pump.reads + 1 }.skip target fuel

/-- `JumpTo`: a source that cannot be addressed can only be read forward. -/
def StreamPump.jumpTo (pump : StreamPump) (target : Nat) : Option StreamPump :=
  if pump.source.seekable = true then
    if pump.source.seek target = true then some { pump with pos := target } else none
  else if target < pump.pos then none
  else pump.skip target (target - pump.pos + 1)

/-- `operator()`: the octets written to the sink, or a failure. -/
def StreamPump.provide (pump : StreamPump) (offset length : Nat) : StreamPump × Option Bytes :=
  if pump.failed = true then (pump, none)
  else
    match if offset = pump.pos then some pump else pump.jumpTo offset with
    | none => ({ pump with failed := true }, none)
    | some pump =>
      let got := pump.source.readAt pump.pos pump.reads (min length pumpBuffer)
      if got = [] then ({ pump with failed := true }, none)
      else ({ pump with pos := pump.pos + got.length, reads := pump.reads + 1 }, some got)

/-- The library asks until the range is covered or the provider fails; the fuel bounds the
number of calls. -/
def StreamPump.deliver (pump : StreamPump) (offset remaining : Nat) : Nat → Bytes
  | 0 => []
  | fuel + 1 =>
    if remaining = 0 then []
    else
      match pump.provide offset remaining with
      | (_, none) => []
      | (pump', some got) =>
        got ++ pump'.deliver (offset + got.length) (remaining - got.length) fuel

/-- The octets of one range on the wire. -/
def provided (source : ByteSource) (offset length : Nat) : Bytes :=
  { source : StreamPump }.deliver offset length length

/-! ## What reaches the client -/

def octetsOf (text : String) : Bytes := text.toUTF8.toList

def contentRanges (headers : HeaderMap) : List String :=
  (headers.entries.filter fun e => equalsNoCase e.1 "Content-Range").map Prod.snd

structure Sent where
  status : Int
  contentRanges : List String
  body : Bytes
deriving DecidableEq, Repr

/-- `httplib::Response`; the status `-1` is left to the library. -/
structure LibraryResponse where
  status : Int := -1
  headers : HeaderMap := {}
  body : String := ""
  provider : Option (ByteSource × Nat) := none

/-- `ApplyToHttplib` -/
def applyToHttplib (srv : ServerOptions) (res : Response) (hreq : LibraryRequest) :
    LibraryResponse :=
  match res.stream with
  | some source =>
    if res.streamLength < 0 then
      let unknown := srv.error 500 "unknown-length stream is not supported yet"
      { status := 500, headers := unknown.headers, body := unknown.body }
    else
      { status := if hreq.ranges = [] then 200 else -1
        headers := res.headers
        provider := some (source, res.streamLength.toNat) }
  | none => { status := res.status, headers := res.headers, body := res.body }

/-- What the handlers of the server make of a request: `Dispatch` and `ApplyToHttplib`, once
the handler has answered `res`. -/
def routed (srv : ServerOptions) (hreq : LibraryRequest) (uuid : String) (res : Response) :
    LibraryResponse × LibraryRequest :=
  let answer := conclude srv hreq (makeRequest hreq uuid) res
  (applyToHttplib srv answer.1 answer.2, answer.2)

/-- The library's framing; several ranges become a multipart body, which is left out. -/
def framed (hreq : LibraryRequest) (lib : LibraryResponse) : Option Sent :=
  let withBody (contentRanges : List String) (body : Bytes) : Option Sent :=
    some ⟨lib.status, contentRanges, if hreq.method = "HEAD" then [] else body⟩
  match lib.provider with
  | none => withBody (contentRanges lib.headers) (octetsOf lib.body)
  | some (source, total) =>
    match hreq.ranges with
    | [] => withBody (contentRanges lib.headers) (provided source 0 total)
    | [(first, last)] =>
      withBody (contentRanges lib.headers ++ [formatContentRange ⟨first, last⟩ total])
        (provided source first.toNat (last - first + 1).toNat)
    | _ => none

/-- The error handler: a `Range` header that is no range at all was not to be refused. -/
def errorHandler (srv : ServerOptions) (uuid : String) (res : Response) (hreq : LibraryRequest)
    (lib : LibraryResponse) : LibraryResponse :=
  let rangeless := { hreq with ranges := [], headers := hreq.headers.remove "Range" }
  let ours :=
    if Text.containsText (lib.headers.value "Content-Type") "application/json" then lib
    else
      let detail := String.ofList (lib.body.toList.take 200)
      { lib with
        headers := lib.headers.set "Content-Type" "application/json"
        body := errorBody lib.status detail srv.errorFormat }
  if lib.status = 416 ∧ (hreq.method = "GET" ∨ hreq.method = "HEAD") ∧
      hreq.headers.has "Range" = true then
    match parseRangeHeader (hreq.headers.value "Range") (-1) with
    | .malformed _ => (routed srv rangeless uuid res).1
    | _ => ours
  else ours

/-- `write_response_core`: errors go through the error handler. -/
def written (srv : ServerOptions) (uuid : String) (res : Response) (hreq : LibraryRequest)
    (lib : LibraryResponse) : Option Sent :=
  if 400 ≤ lib.status then framed hreq (errorHandler srv uuid res hreq lib)
  else framed hreq lib

/-- A download on the control plane, when the handler answers `res`. -/
def controlSent (srv : ServerOptions) (hreq : LibraryRequest) (uuid : String) (res : Response) :
    Option Sent :=
  let routedSent (ranges : List (Int × Int)) : Option Sent :=
    let (lib, hreq') := routed srv { hreq with ranges } uuid res
    let status := if lib.status = -1 then (if hreq'.ranges = [] then 200 else 206) else lib.status
    written srv uuid res hreq' { lib with status }
  match hreq.headers.get "Range" with
  | none => routedSent []
  | some header =>
    match libraryRanges header with
    | none => written srv uuid res { hreq with ranges := [] } { status := 416 }
    | some ranges => routedSent ranges

end FileService.Http

/-!
## The octets of a range

However short the reads are, the pump of the control plane and the loops of the
large-file plane send the octets of the range that the source has. The
large-file plane seeks first, so it sends none of a source that cannot be
addressed.
-/
namespace FileService.Http
open FileService.Common FileService.Domain

/-- The octets from `offset` on, at most `length` of them. -/
def slice (source : ByteSource) (offset length : Nat) : Bytes :=
  (source.content.drop offset).take length

/-! ## The pump of the control plane -/

section Pump
variable {pump : StreamPump} {source : ByteSource} {offset remaining target : Nat}

theorem readAt_eq_nil {pos k capacity : Nat} (hcapacity : 0 < capacity) :
    source.readAt pos k capacity = [] ↔ source.content.length ≤ pos := by
  rw [ByteSource.readAt, List.take_eq_nil_iff, List.drop_eq_nil_iff]
  omega

/-- Skipping ends at the target, unless the source ends before it. -/
theorem skip_eq (pump : StreamPump) (fuel : Nat) (hfuel : target - pump.pos < fuel)
    (hpos : pump.pos ≤ target) (hthere : pump.pos ≤ pump.source.content.length) :
    (target ≤ pump.source.content.length ∧ ∃ reads,
      pump.skip target fuel = some { pump with pos := target, reads }) ∨
    (pump.source.content.length < target ∧ pump.skip target fuel = none) := by
  induction fuel generalizing pump with
  | zero => omega
  | succ fuel ih =>
    rw [StreamPump.skip]
    by_cases hdone : target ≤ pump.pos
    · obtain rfl : pump.pos = target := le_antisymm hpos hdone
      rw [if_pos le_rfl]
      exact .inl ⟨hthere, pump.reads, rfl⟩
    · have hbuffer : 0 < min pumpBuffer (target - pump.pos) := by
        simp only [pumpBuffer]
        omega
      rw [if_neg hdone]
      dsimp only
      split
      · rename_i hend
        have hle := (readAt_eq_nil hbuffer).mp hend
        exact .inr ⟨by omega, rfl⟩
      · rename_i hgot
        have hlength := List.length_pos_iff.mpr hgot
        have hmost := readAt_length pump.source pump.pos pump.reads
          (min pumpBuffer (target - pump.pos))
        generalize pump.source.readAt pump.pos pump.reads (min pumpBuffer (target - pump.pos)) = got
          at hlength hmost
        exact ih { pump with pos := pump.pos + got.length, reads := pump.reads + 1 }
          (by dsimp only; omega) (by dsimp only; omega) (by dsimp only; omega)

/-- A pump that stands at the range sends what the source has of it. -/
theorem deliver_eq (fuel : Nat) (hfuel : remaining ≤ fuel) (hpos : pump.pos = offset)
    (hfailed : pump.failed = false) :
    pump.deliver offset remaining fuel = slice pump.source offset remaining := by
  induction fuel generalizing pump offset remaining with
  | zero =>
    obtain rfl : remaining = 0 := Nat.le_zero.mp hfuel
    simp [StreamPump.deliver, slice]
  | succ fuel ih =>
    subst hpos
    rw [StreamPump.deliver]
    by_cases hzero : remaining = 0
    · simp [hzero, slice]
    rw [if_neg hzero, StreamPump.provide]
    simp only [hfailed, Bool.false_eq_true, if_false, if_true]
    by_cases hend : pump.source.readAt pump.pos pump.reads (min remaining pumpBuffer) = []
    · have hle := (readAt_eq_nil (by simp only [pumpBuffer]; omega)).mp hend
      simp [hend, slice, List.drop_eq_nil_of_le hle]
    · have hlength := List.length_pos_iff.mpr hend
      simp only [if_neg hend]
      rw [ih (by omega) rfl rfl, slice, slice, ← List.drop_drop]
      exact take_append_missing ((min_le_left _ _).trans (min_le_left _ _)) _

/-- Where the pump first has to jump, the rest is as from there. -/
theorem deliver_of_jump {pump' : StreamPump} {fuel : Nat} (hfailed : pump.failed = false)
    (hjump : (if offset = pump.pos then some pump else pump.jumpTo offset) = some pump')
    (hpos : pump'.pos = offset) (hfailed' : pump'.failed = false) :
    pump.deliver offset remaining (fuel + 1) = pump'.deliver offset remaining (fuel + 1) := by
  simp only [StreamPump.deliver, StreamPump.provide, hfailed, hfailed', hjump, hpos,
    Bool.false_eq_true, if_false, if_true]

theorem jumpTo_eq (source : ByteSource) (offset : Nat) :
    (offset ≤ source.content.length ∧ ∃ reads,
      { source : StreamPump }.jumpTo offset = some { source, pos := offset, reads }) ∨
    (source.content.length < offset ∧ { source : StreamPump }.jumpTo offset = none) := by
  rw [StreamPump.jumpTo]
  by_cases hseek : source.seekable = true
  · by_cases hin : offset ≤ source.content.length
    · have hok : source.seek offset = true := by simp [ByteSource.seek, hseek, hin]
      exact .inl ⟨hin, 0, by simp [hseek, hok]⟩
    · have hno : source.seek offset = false := by simpa [ByteSource.seek, hseek] using hin
      exact .inr ⟨by omega, by simp [hseek, hno]⟩
  · simp only [hseek, Bool.false_eq_true, if_false, Nat.not_lt_zero, Nat.sub_zero]
    exact skip_eq { source } (offset + 1) (Nat.lt_succ_self _) (Nat.zero_le _)
      (Nat.zero_le _)

theorem provided_eq (source : ByteSource) (offset length : Nat) :
    provided source offset length = slice source offset length := by
  cases length with
  | zero => simp [provided, StreamPump.deliver, slice]
  | succ length =>
    rw [provided]
    by_cases hzero : offset = 0
    · exact deliver_eq _ le_rfl hzero.symm rfl
    · rcases jumpTo_eq source offset with ⟨-, reads, hjump⟩ | ⟨hshort, hjump⟩
      · have hstart : (if offset = ({ source } : StreamPump).pos then some { source } else
            ({ source } : StreamPump).jumpTo offset) =
            some { source, pos := offset, reads } := (if_neg hzero).trans hjump
        rw [deliver_of_jump rfl hstart rfl rfl]
        exact deliver_eq _ le_rfl rfl rfl
      · have hnothing : slice source offset (length + 1) = [] := by
          simp [slice, List.drop_eq_nil_of_le hshort.le]
        simp [StreamPump.deliver, StreamPump.provide, hzero, hjump, hnothing]

end Pump

/-! ## The loops of the large-file plane -/

section Plane
variable (opts : PlaneOptions) (kernel : Nat → Nat) (out : Outgoing) (source : ByteSource)

theorem slice_of_seekable (h : source.seek out.offset = true) :
    (pumpStream opts kernel out source).1 = slice source out.offset.toNat out.length.toNat := by
  unfold pumpStream
  by_cases hlength : out.length ≤ 0
  · simp [hlength, slice]
  · have hpos : 0 < max 1 (if 0 < opts.sendfileChunkBytes then opts.sendfileChunkBytes.toNat
        else out.length.toNat) := by omega
    simp only [if_neg hlength, h, Bool.true_eq_false, if_false]
    split
    · exact ByteSource.readLoop_eq _ hpos _ _ _ _ le_rfl
    · exact ByteSource.readLoop_eq _ (by split <;> omega) _ _ _ _ le_rfl

/-- What `PumpStream` sends: the octets of the range, if the source can be addressed. -/
theorem pumpStream_eq (hoffset : 0 ≤ out.offset) :
    (pumpStream opts kernel out source).1 =
      if source.seekable = true then slice source out.offset.toNat out.length.toNat else [] := by
  by_cases hseek : source.seek out.offset = true
  · have hseekable : source.seekable = true := by
      simp only [ByteSource.seek, Bool.and_eq_true] at hseek
      exact hseek.1.1
    rw [slice_of_seekable opts kernel out source hseek, if_pos hseekable]
  · have hnothing : (pumpStream opts kernel out source).1 = [] := by
      unfold pumpStream
      split
      · rfl
      · simp [hseek]
    rw [hnothing]
    split
    · rename_i hseekable
      have hend : source.content.length ≤ out.offset.toNat := by
        simp only [ByteSource.seek, hseekable, Bool.true_and, Bool.and_eq_true, decide_eq_true_eq,
          not_and, not_le] at hseek
        have := hseek hoffset
        omega
      simp [slice, List.drop_eq_nil_of_le hend]
    · rfl

end Plane

end FileService.Http
