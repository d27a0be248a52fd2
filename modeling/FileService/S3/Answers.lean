import FileService.S3.BlobStore

/-!
# What the callbacks leave behind

Reading from the source and writing to the sink do not touch each other. When a
call arrives, its status is that of the last answer, whatever came before it, and
the body has gone to the sink or into the captured text as a whole.
-/
namespace FileService.S3
open FileService.Common FileService.Common.Crypto FileService.Domain
open FileService.Transfer

/-! ## Header lines -/

section Lines
variable {call : HttpCall} {state : DownloadState} {head : Head}

theorem octets_http : octets "HTTP/" = [72, 84, 84, 80, 47] := by decide +kernel

theorem digitValue_ten {c : UInt8} (h : isDigitOctet c = true) :
    digitValue 10 c = some (c.toNat - 48) := by
  simp only [isDigitOctet, Bool.and_eq_true, decide_eq_true_eq] at h
  have hlt : c.toNat - 48 < 10 := by omega
  simp [digitValue, Percent.hexDigit?, h, hlt]

theorem digitsFrom_append {digits : Bytes} (h : ∀ c ∈ digits, isDigitOctet c = true) (value : Nat)
    (rest : Bytes) : digitsFrom 10 value (digits ++ 32 :: rest) =
      digits.foldl (fun v c => v * 10 + (c.toNat - 48)) value := by
  induction digits generalizing value with
  | nil => rfl
  | cons c digits ih =>
    obtain ⟨hc, hdigits⟩ := List.forall_mem_cons.mp h
    rw [List.cons_append, digitsFrom, digitValue_ten hc, List.foldl_cons, Nat.mul_comm value 10]
    exact ih hdigits _

/-- A number that a blank follows is read as it was written. -/
theorem atol_decimalNat {n : Nat} (hn : n < 1000) (rest : Bytes) :
    atol (decimalNat n ++ 32 :: rest) = n := by
  have hdigits : ∀ c ∈ decimalNat n, isDigitOctet c = true := fun c hc => isDigitOctet_of_mem hc
  have hvalue := digitsFrom_append hdigits 0 rest
  have hread : (decimalNat n).foldl (fun v c => v * 10 + (c.toNat - 48)) 0 = n :=
    decimalValue_decimalNat
  rw [hread] at hvalue
  obtain ⟨c, others, hcons⟩ := List.exists_cons_of_ne_nil (decimalNat_ne_nil (n := n))
  have hc := hdigits c (by simp [hcons])
  simp only [isDigitOctet, Bool.and_eq_true, decide_eq_true_eq] at hc
  have hspace : isSpaceOctet c = false := by
    have hne : c ≠ 32 := by
      rintro rfl
      simp at hc
    simp only [isSpaceOctet, Bool.or_eq_false_iff, beq_eq_false_iff_ne, ne_eq, hne,
      not_false_eq_true, Bool.and_eq_false_iff, decide_eq_false_iff_not, true_and]
    omega
  have hminus : c ≠ 45 := by
    rintro rfl
    simp at hc
  have hplus : c ≠ 43 := by
    rintro rfl
    simp at hc
  rw [hcons, List.cons_append] at hvalue ⊢
  have hsign : signOf (c :: (others ++ 32 :: rest)) = (false, c :: (others ++ 32 :: rest)) := by
    simp [signOf, hminus, hplus]
  rw [atol, strtol, List.dropWhile_cons_of_neg (by simp [hspace]), hsign]
  simp only [Nat.reduceEqDiff, false_and, if_false, hvalue, saturated, Bool.false_eq_true]
  omega

theorem headerCallback_statusLine :
    headerCallback call state head.statusLine = { state with status := head.status } := by
  have hline : head.statusLine.dropWhile (· != 32) =
      32 :: (decimalNat head.status ++ 32 :: (head.reason ++ crlf)) := by
    have hpos : ∀ c ∈ octets "HTTP/" ++ head.version, (c != 32) = true := by
      intro c hc
      rw [octets_http, List.mem_append] at hc
      rcases hc with hc | hc
      · have hall : ([72, 84, 84, 80, 47] : Bytes).all (· != 32) = true := by decide
        exact List.all_eq_true.mp hall c hc
      · simpa using fun h : c = 32 => head.version_plain (h ▸ hc)
    rw [Head.statusLine, ← List.append_assoc, List.dropWhile_append_of_pos hpos]
    exact List.dropWhile_cons_of_neg (by simp)
  have hstart : (octets "HTTP/").isPrefixOf head.statusLine = true :=
    List.isPrefixOf_iff_prefix.mpr (List.prefix_append _ _)
  rw [headerCallback, if_pos hstart, hline]
  simp only [atol_decimalNat head.status_fits]

/-- A field is never taken for a status line, as there is no slash in its name. -/
theorem not_statusLine {field : Bytes × Bytes} (h : 47 ∉ field.1) :
    (octets "HTTP/").isPrefixOf (fieldLine field) = false := by
  obtain ⟨name, value⟩ := field
  simp only at h
  rw [octets_http, fieldLine]
  rcases name with _ | ⟨a, _ | ⟨b, _ | ⟨c, _ | ⟨d, _ | ⟨e, name⟩⟩⟩⟩⟩
  all_goals simp_all [List.isPrefixOf]

/-- A line that is no status line leaves the status and the bodies as they are. -/
theorem headerCallback_quiet (call : HttpCall) (state : DownloadState) {line : Bytes} (h : (octets "HTTP/").isPrefixOf line = false) :
    (headerCallback call state line).status = state.status ∧
      (headerCallback call state line).sink = state.sink ∧
      (headerCallback call state line).errorBody = state.errorBody := by
  rw [headerCallback, if_neg (by simp [h])]
  split_ifs
  · split <;> exact ⟨rfl, rfl, rfl⟩
  · exact ⟨rfl, rfl, rfl⟩

end Lines

/-! ## What was received -/

/-- The state but for a failure of the sink. -/
def DownloadState.received (state : DownloadState) : DownloadState :=
  { state with sinkFailed := none }

/-- What a part of the answers does to the state, if the call goes on. -/
def absorb (call : HttpCall) (state : DownloadState) : Part → DownloadState
  | .line line => headerCallback call state line
  | .data data =>
    if 400 ≤ state.status then
      if mayCapture call state then { state with errorBody := state.errorBody ++ data } else state
    else if call.download then { state with sink := state.sink ++ data }
    else if call.errorBody then { state with errorBody := state.errorBody ++ data }
    else state

section Receiving
variable {call : HttpCall} {state : DownloadState}

theorem headerCallback_received (line : Bytes) :
    (headerCallback call state line).received = headerCallback call state.received line := by
  unfold headerCallback
  split_ifs
  · split <;> rfl
  · split <;> rfl
  · rfl

theorem writeCallback_received {data : Bytes} {reply : Result Unit}
    (h : (writeCallback call state data reply).2 = data.length) :
    (writeCallback call state data reply).1.received =
      absorb call state.received (.data data) := by
  have hcapture : mayCapture call state.received = mayCapture call state := rfl
  have hstatus : state.received.status = state.status := rfl
  simp only [writeCallback, absorb, hcapture, hstatus] at h ⊢
  by_cases hbad : 400 ≤ state.status
  · simp only [if_pos hbad]
    split_ifs <;> rfl
  · simp only [if_neg hbad] at h ⊢
    cases hdownload : call.download with
    | true =>
      simp only [hdownload, Bool.not_true, Bool.false_eq_true, if_false, if_true] at h ⊢
      cases reply with
      | ok _ => rfl
      | error e =>
        -- the sink failed on no data
        have hnil : data = [] := List.length_eq_zero_iff.mp h.symm
        simp [hnil, DownloadState.received]
    | false =>
      simp only [hdownload, Bool.not_false, if_true, Bool.false_eq_true, if_false] at h ⊢
      by_cases hmay : mayCapture call state = true
      · have herror : call.errorBody = true := (Bool.and_eq_true_iff.mp hmay).1
        simp only [if_pos hmay, if_pos herror]
        rfl
      · simp only [if_neg hmay] at h ⊢
        split_ifs at h ⊢ with herror
        · have hnil : data = [] := List.length_eq_zero_iff.mp h.symm
          simp [hnil, DownloadState.received]
        · rfl

/-- One callback: nothing but what the service sent changes what was received. -/
theorem next_received {transfer after : Transfer} {callback : Callback}
    (h : transfer.next call callback = (after, true)) :
    after.download.received =
      (callback.part?.toList).foldl (absorb call) transfer.download.received := by
  cases callback with
  | read reply =>
    have hsame : after.download = transfer.download := by
      simp only [Transfer.next] at h
      split_ifs at h <;> (rw [Prod.mk.injEq] at h; rw [← h.1])
    rw [hsame]
    rfl
  | header line =>
    simp only [Transfer.next, Prod.mk.injEq, and_true] at h
    rw [← h]
    exact headerCallback_received line
  | write data reply =>
    simp only [Transfer.next, Prod.mk.injEq, beq_iff_eq] at h
    rw [← h.1]
    exact writeCallback_received h.2

theorem through_received {transfer after : Transfer} {callbacks : List Callback}
    (h : transfer.through call callbacks = (after, true)) : after.download.received =
      (callbacks.filterMap Callback.part?).foldl (absorb call) transfer.download.received := by
  induction callbacks generalizing transfer with
  | nil =>
    obtain rfl : transfer = after := congrArg Prod.fst h
    rfl
  | cons callback rest ih =>
    rw [Transfer.through] at h
    obtain ⟨between, goesOn, hnext⟩ : ∃ between goesOn,
        transfer.next call callback = (between, goesOn) := ⟨_, _, rfl⟩
    cases goesOn with
    | false =>
      simp [hnext] at h
    | true =>
      simp only [hnext, if_true] at h
      rw [ih h, next_received hnext]
      cases hpart : callback.part? with
      | none => simp [hpart]
      | some part => simp [hpart]

section Heads
variable (call : HttpCall)

/-- Lines that are no status lines, one after the other. -/
theorem absorb_fields (state : DownloadState) {lines : List Bytes}
    (h : ∀ line ∈ lines, (octets "HTTP/").isPrefixOf line = false) :
    ((lines.map Part.line).foldl (absorb call) state).status = state.status ∧
      ((lines.map Part.line).foldl (absorb call) state).sink = state.sink ∧
      ((lines.map Part.line).foldl (absorb call) state).errorBody = state.errorBody := by
  induction lines generalizing state with
  | nil => exact ⟨rfl, rfl, rfl⟩
  | cons line lines ih =>
    obtain ⟨hline, hlines⟩ := List.forall_mem_cons.mp h
    obtain ⟨hstatus, hsink, hbody⟩ := headerCallback_quiet call state hline
    obtain ⟨hstatus', hsink', hbody'⟩ := ih (headerCallback call state line) hlines
    exact ⟨hstatus'.trans hstatus, hsink'.trans hsink, hbody'.trans hbody⟩

theorem absorb_head (state : DownloadState) (head : Head) :
    (head.parts.foldl (absorb call) state).status = head.status ∧
      (head.parts.foldl (absorb call) state).sink = state.sink ∧
      (head.parts.foldl (absorb call) state).errorBody = state.errorBody := by
  have hquiet : ∀ line ∈ head.fields.map fieldLine ++ [crlf],
      (octets "HTTP/").isPrefixOf line = false := by
    intro line hline
    rcases List.mem_append.mp hline with hfield | hend
    · obtain ⟨field, hmem, rfl⟩ := List.mem_map.mp hfield
      exact not_statusLine (head.names_plain field hmem)
    · rw [List.mem_singleton.mp hend, octets_http]
      rfl
  obtain ⟨hstatus, hsink, hbody⟩ := absorb_fields call
    { state with status := head.status } hquiet
  rw [Head.parts, Head.lines, List.map_cons, List.foldl_cons, absorb, headerCallback_statusLine]
  exact ⟨hstatus, hsink, hbody⟩

/-- Whatever answers come before, the status is that of the last. -/
theorem absorb_heads (state : DownloadState) (informational : List Head) (final : Head) :
    (((informational ++ [final]).flatMap Head.parts).foldl (absorb call) state).status =
        final.status ∧
      (((informational ++ [final]).flatMap Head.parts).foldl (absorb call) state).sink =
        state.sink ∧
      (((informational ++ [final]).flatMap Head.parts).foldl (absorb call) state).errorBody =
        state.errorBody := by
  induction informational generalizing state with
  | nil => simpa using absorb_head call state final
  | cons head informational ih =>
    obtain ⟨-, hsink, hbody⟩ := absorb_head call state head
    obtain ⟨hstatus', hsink', hbody'⟩ := ih (head.parts.foldl (absorb call) state)
    rw [List.cons_append, List.flatMap_cons, List.foldl_append]
    exact ⟨hstatus', hsink'.trans hsink, hbody'.trans hbody⟩

end Heads

theorem absorb_data_status (body : List Bytes) :
    ((body.map Part.data).foldl (absorb call) state).status = state.status := by
  induction body generalizing state with
  | nil => rfl
  | cons data body ih =>
    rw [List.map_cons, List.foldl_cons, ih, absorb]
    split_ifs <;> rfl

theorem absorb_data_sink (hdownload : call.download = true) (hgood : state.status < 400)
    (body : List Bytes) :
    ((body.map Part.data).foldl (absorb call) state).sink = state.sink ++ body.flatten := by
  induction body generalizing state with
  | nil => simp
  | cons data body ih =>
    have hnext : absorb call state (.data data) = { state with sink := state.sink ++ data } := by
      rw [absorb, if_neg (by omega), if_pos hdownload]
    rw [List.map_cons, List.foldl_cons, hnext, ih (by exact hgood), List.flatten_cons,
      List.append_assoc]

end Receiving

/-! ## Calls that arrive -/

section Arriving
variable {call : HttpCall} {x : Exchange}

theorem received_of_arrives (h : call.Arrives x) : (call.transfer x).download.received =
    ((x.informational ++ [x.final]).flatMap Head.parts ++ x.body.map Part.data).foldl (absorb call)
      {} := by
  rw [← x.complete h.2]
  exact through_received (Prod.ext rfl h.1)

theorem status_of_arrives (h : call.Arrives x) :
    (call.transfer x).download.status = x.final.status := by
  have hstatus := congrArg DownloadState.status (received_of_arrives h)
  rw [List.foldl_append, absorb_data_status] at hstatus
  exact hstatus.trans (absorb_heads call {} x.informational x.final).1

theorem outcome_of_arrives (h : call.Arrives x) : call.outcome x = .ok (x.final.status : Int) := by
  have hstatus := x.final_status
  rw [HttpCall.outcome, if_pos h, status_of_arrives h, if_neg (by omega)]

theorem outcome_eq_ok {status : Int} : call.outcome x = .ok status ↔
    call.Arrives x ∧ status = x.final.status := by
  by_cases h : call.Arrives x
  · simp [outcome_of_arrives h, h, eq_comm]
  · simp [HttpCall.outcome, h]

/-- A body that is no error went to the sink. -/
theorem sink_of_arrives (h : call.Arrives x) (hdownload : call.download = true)
    (hgood : x.final.status < 400) : (call.transfer x).download.sink = x.document := by
  obtain ⟨hstatus, hsink, -⟩ := absorb_heads call {} x.informational x.final
  have hreceived := congrArg DownloadState.sink (received_of_arrives h)
  rw [List.foldl_append, absorb_data_sink hdownload (by omega), hsink] at hreceived
  exact hreceived

end Arriving

end FileService.S3
