import FileService.Streams.Source

/-!
# The source of a streamed upload

The messages of the client after its first one, as a source of bytes. A reader
that has no more messages looks the same whether the client has closed its side
or has gone; so the end has to be marked, and nothing but marks may follow.
-/
namespace FileService.Grpc
open FileService.Common FileService.Domain FileService.Streams

/-- The payload of a message. -/
inductive UploadFileRequest where
  | info
  | chunk (bytes : Bytes)
  | endOfStream (value : Bool)
  | notSet
deriving DecidableEq, Repr

/-- `GrpcUploadSource`: the messages still to come, and whether the context says that the
client has cancelled. -/
structure GrpcUploadSource where
  messages : List UploadFileRequest
  cancelled : Bool := false
  buffer : Bytes := []
  cursor : Nat := 0
  sawEndOfStream : Bool := false
deriving DecidableEq, Repr

namespace GrpcUploadSource

def incomplete (cancelled : Bool) : Error :=
  err .unavailable
    (if cancelled = true then "上传已被客户端取消（字节流不完整）"
      else "上传流在收到 end_of_stream 之前就结束了（客户端中断或协议错误）")

def misplacedInfo : Error := err .invalidArgument "UploadFile 的 info 只能出现在第一个分片"

def noPayload : Error := err .invalidArgument "UploadFile 的分片必须携带 chunk（payload 未设置）"

def afterTheEnd : Error := err .invalidArgument "end_of_stream 之后不允许再有数据分片"

/-- The loop that goes through the messages until there are bytes; `false` at the end. -/
def fetch (s : GrpcUploadSource) : List UploadFileRequest → Result Bool × GrpcUploadSource
  | [] =>
    if s.sawEndOfStream = false then (.error (incomplete s.cancelled), { s with messages := [] })
    else (.ok false, { s with messages := [] })
  | .info :: messages => (.error misplacedInfo, { s with messages })
  | .endOfStream _ :: messages =>
    fetch { s with sawEndOfStream := true, buffer := [], cursor := 0 } messages
  | .notSet :: messages => (.error noPayload, { s with messages })
  | .chunk bytes :: messages =>
    if s.sawEndOfStream = true then (.error afterTheEnd, { s with messages })
    else if bytes = [] then fetch { s with buffer := bytes, cursor := 0 } messages
    else (.ok true, { s with messages, buffer := bytes, cursor := 0 })

/-- The bytes of the current chunk that have not been read. -/
def pending (s : GrpcUploadSource) : Bytes := s.buffer.drop s.cursor

def take (s : GrpcUploadSource) (capacity : Nat) : Bytes × GrpcUploadSource :=
  let count := min capacity (s.buffer.length - s.cursor)
  let cursor := s.cursor + count
  (s.pending.take count,
    { s with cursor, buffer := if s.buffer.length ≤ cursor then [] else s.buffer })

/-- `Read` -/
def read (capacity : Nat) (s : GrpcUploadSource) : Result Bytes × GrpcUploadSource :=
  if capacity = 0 then (.ok [], s)
  else if s.cursor < s.buffer.length then (.ok (s.take capacity).1, (s.take capacity).2)
  else
    match s.fetch s.messages with
    | (.error e, s') => (.error e, s')
    | (.ok false, s') => (.ok [], s')
    | (.ok true, s') => (.ok (s'.take capacity).1, (s'.take capacity).2)

/-! ## What a stream of messages holds -/

/-- The bytes before the end or the first fault, and the fault. -/
def scan (cancelled : Bool) : Bool → List UploadFileRequest → Bytes × Option Error
  | saw, [] => ([], if saw = false then some (incomplete cancelled) else none)
  | _, .info :: _ => ([], some misplacedInfo)
  | _, .endOfStream _ :: messages => scan cancelled true messages
  | _, .notSet :: _ => ([], some noPayload)
  | true, .chunk _ :: _ => ([], some afterTheEnd)
  | false, .chunk bytes :: messages =>
    (bytes ++ (scan cancelled false messages).1, (scan cancelled false messages).2)

/-- All the bytes of the chunks. -/
def chunkBytes : List UploadFileRequest → Bytes
  | [] => []
  | .chunk bytes :: messages => bytes ++ chunkBytes messages
  | _ :: messages => chunkBytes messages

/-- Chunks, and then nothing but end marks, of which there is one at least. -/
def Complete : List UploadFileRequest → Prop
  | .chunk _ :: messages => Complete messages
  | .endOfStream _ :: messages => ∀ m ∈ messages, ∃ value, m = .endOfStream value
  | _ => False

section Scan
variable {cancelled : Bool} {messages : List UploadFileRequest}

theorem scan_true_end : (scan cancelled true messages).2 = none ↔
    ∀ m ∈ messages, ∃ value, m = .endOfStream value := by
  induction messages with
  | nil => simp [scan]
  | cons m messages ih => cases m <;> simp [scan, ih]

theorem scan_true_bytes : (scan cancelled true messages).1 = [] := by
  induction messages with
  | nil => rfl
  | cons m messages ih =>
    cases m with
    | endOfStream value => exact ih
    | _ => rfl

/-- The bytes before the end are a first part of those of the chunks. -/
theorem scan_part : (scan cancelled false messages).1 <+: chunkBytes messages := by
  induction messages with
  | nil => exact List.nil_prefix
  | cons m messages ih =>
    cases m with
    | chunk bytes => exact (List.prefix_append_right_inj _).mpr ih
    | endOfStream value =>
      rw [scan, scan_true_bytes]
      exact List.nil_prefix
    | info => exact List.nil_prefix
    | notSet => exact List.nil_prefix

theorem scan_end : (scan cancelled false messages).2 = none ↔ Complete messages := by
  induction messages with
  | nil => simp [scan, Complete]
  | cons m messages ih =>
    cases m with
    | chunk bytes => exact ih
    | endOfStream value => exact scan_true_end
    | info => simp [scan, Complete]
    | notSet => simp [scan, Complete]

theorem chunkBytes_marks (h : ∀ m ∈ messages, ∃ value, m = .endOfStream value) :
    chunkBytes messages = [] := by
  induction messages with
  | nil => rfl
  | cons m messages ih =>
    obtain ⟨value, rfl⟩ := h m (by simp)
    exact ih fun m' hm' => h m' (by simp [hm'])

/-- Of a complete stream all the bytes come before the end. -/
theorem scan_complete (h : Complete messages) :
    (scan cancelled false messages).1 = chunkBytes messages := by
  induction messages with
  | nil => rfl
  | cons m messages ih =>
    cases m with
    | chunk bytes => rw [scan, chunkBytes, ih h]
    | endOfStream value =>
      rw [scan, scan_true_bytes]
      exact (chunkBytes_marks h).symm
    | info => cases h
    | notSet => cases h

end Scan

/-! ## As a stream -/

section Stream
variable {s : GrpcUploadSource} {capacity : Nat}

theorem length_pending (s : GrpcUploadSource) : s.pending.length = s.buffer.length - s.cursor :=
  List.length_drop

theorem take_fits (s : GrpcUploadSource) (capacity : Nat) : (s.take capacity).1.length ≤ capacity := by
  unfold take
  simp

theorem pending_take (s : GrpcUploadSource) (capacity : Nat) : (s.take capacity).2.pending =
    s.pending.drop (min capacity (s.buffer.length - s.cursor)) := by
  unfold take pending
  dsimp only
  split_ifs with hall
  · rw [List.drop_nil, List.drop_drop, List.drop_eq_nil_of_le (by omega)]
  · rw [List.drop_drop]

theorem fetch_spec (s : GrpcUploadSource) (messages : List UploadFileRequest)
    (hpending : s.pending = []) :
    (∃ e s', s.fetch messages = (.error e, s') ∧
      scan s.cancelled s.sawEndOfStream messages = ([], some e)) ∨
    (∃ s', s.fetch messages = (.ok false, s') ∧ s'.pending = [] ∧ s'.messages = [] ∧
      s'.sawEndOfStream = true ∧ scan s.cancelled s.sawEndOfStream messages = ([], none)) ∨
    ∃ s', s.fetch messages = (.ok true, s') ∧ s'.pending ≠ [] ∧ s'.cancelled = s.cancelled ∧
      s'.sawEndOfStream = false ∧
      scan s.cancelled s.sawEndOfStream messages =
        (s'.pending ++ (scan s.cancelled false s'.messages).1,
          (scan s.cancelled false s'.messages).2) := by
  induction messages generalizing s with
  | nil =>
    rw [fetch, scan]
    cases hsaw : s.sawEndOfStream with
    | false => exact .inl ⟨_, _, rfl, rfl⟩
    | true => exact .inr (.inl ⟨_, rfl, hpending, rfl, rfl, rfl⟩)
  | cons m messages ih =>
    cases m with
    | info => exact .inl ⟨_, _, rfl, by rw [scan]⟩
    | notSet => exact .inl ⟨_, _, rfl, by rw [scan]⟩
    | endOfStream value =>
      rw [fetch, scan]
      exact ih { s with sawEndOfStream := true, buffer := [], cursor := 0 } rfl
    | chunk bytes =>
      rw [fetch]
      cases hsaw : s.sawEndOfStream with
      | true => exact .inl ⟨_, _, rfl, rfl⟩
      | false =>
        rw [if_neg (by simp), scan]
        by_cases hempty : bytes = []
        · subst hempty
          have hrest := ih { s with buffer := [], cursor := 0 } rfl
          simpa [hsaw] using hrest
        · rw [if_neg hempty]
          exact .inr (.inr ⟨_, rfl, hempty, rfl, rfl, rfl⟩)

theorem serves_pending (hpending : s.pending ≠ []) (hcapacity : 0 < capacity) (more : Bytes)
    (failure : Option Error) :
    Serves (s.pending ++ more, failure) (.ok (s.take capacity).1)
      ((s.take capacity).2.pending ++ more, failure) := by
  have hlength := length_pending s
  have hpos := List.length_pos_iff.mpr hpending
  have hle : min capacity (s.buffer.length - s.cursor) ≤ s.pending.length := by omega
  have htake : (s.take capacity).1 =
      (s.pending ++ more).take (min capacity (s.buffer.length - s.cursor)) := by
    rw [List.take_append_of_le_length hle]
    rfl
  have hdrop : (s.take capacity).2.pending ++ more =
      (s.pending ++ more).drop (min capacity (s.buffer.length - s.cursor)) := by
    rw [pending_take, List.drop_append_of_le_length hle]
  rw [htake, hdrop]
  exact serves_take (by simp [hpending]) (by omega) failure

/-- `GrpcUploadSource` is a stream of the bytes before the end or the first fault. -/
def stream : ByteStream GrpcUploadSource where
  read := read
  fits := by
    intro capacity s s' bytes h
    unfold read at h
    split_ifs at h
    · cases h
      simp
    · cases h
      exact take_fits s capacity
    · split at h <;> cases h
      · simp
      · exact take_fits _ capacity
  rest s := s.pending ++ (scan s.cancelled s.sawEndOfStream s.messages).1
  failure s := (scan s.cancelled s.sawEndOfStream s.messages).2
  serves := by
    intro capacity s hcapacity
    have hsome : ¬capacity = 0 := by omega
    unfold read
    rw [if_neg hsome]
    split_ifs with hmore
    · have hpending : s.pending ≠ [] := by
        rw [← List.length_pos_iff, length_pending]
        omega
      exact serves_pending hpending hcapacity _ _
    · have hpending : s.pending = [] := by
        rw [← List.length_eq_zero_iff, length_pending]
        omega
      rw [hpending, List.nil_append]
      rcases fetch_spec s s.messages hpending with
        ⟨e, s', hfetch, hscan⟩ | ⟨s', hfetch, hnone, hmessages, hsaw, hscan⟩ |
          ⟨s', hfetch, hnext, hcancelled, hsaw, hscan⟩
      · rw [hfetch, hscan]
        rfl
      · rw [hfetch, hscan]
        exact ⟨rfl, by simp [hnone, hmessages, hsaw, scan]⟩
      · rw [hfetch, hscan]
        have htaken := serves_pending hnext hcapacity (scan s.cancelled false s'.messages).1
          (scan s.cancelled false s'.messages).2
        rw [← hcancelled, ← hsaw] at htaken ⊢
        exact htaken

end Stream

end GrpcUploadSource

end FileService.Grpc
