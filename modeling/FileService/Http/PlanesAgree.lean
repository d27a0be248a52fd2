import FileService.Http.ControlPlane

/-!
# Two planes for one download

The same download is framed by the library on the control plane and by hand on
the large-file plane. They send the same octets of a range. They differ on
headers that the library's parser refuses and ours does not, on the status of
the handler, which the control plane does not use, and on sources that cannot
be addressed.
-/
namespace FileService.Http
open FileService.Common FileService.Domain

def Payload.bytes : Payload → Bytes
  | .text s => octetsOf s
  | .octets b => b

/-- A download on the large-file plane, when the handler answers `res`. -/
def planeSent (opts : PlaneOptions) (kernel : Nat → Nat) (request : Request) (res : Response)
    (served : Nat) : Sent :=
  let sent := (writeResponse opts kernel request (prepare opts request res) served).1
  ⟨sent.status, contentRanges sent.headers, sent.payload.bytes⟩

/-! ## `Content-Range` among the headers -/

section ContentRange
variable {name : String} (h : HeaderMap) (value : String)

theorem contentRanges_set_of_ne (hne : equalsNoCase name "Content-Range" = false) :
    contentRanges (h.set name value) = contentRanges h := by
  obtain ⟨entries⟩ := h
  simp only [contentRanges, HeaderMap.set]
  induction entries with
  | nil => simp [HeaderMap.setEntry, hne]
  | cons e rest ih =>
    rw [HeaderMap.setEntry]
    by_cases hname : equalsNoCase e.1 name = true
    · simp [hname, HeaderMap.equalsNoCase_of_ne hne hname]
    · simp only [hname, Bool.false_eq_true, if_false, List.filter_cons]
      split
      · simpa using ih
      · exact ih

theorem contentRanges_remove_of_ne (hne : equalsNoCase name "Content-Range" = false) :
    contentRanges (h.remove name) = contentRanges h := by
  simp only [contentRanges, HeaderMap.remove, List.filter_filter]
  congr 1
  apply List.filter_congr
  intro e _
  by_cases hname : equalsNoCase e.1 name = true
  · simp [HeaderMap.equalsNoCase_of_ne hne hname]
  · simp [hname]

theorem contentRanges_set :
    contentRanges (h.set "Content-Range" value) = value :: (contentRanges h).tail := by
  obtain ⟨entries⟩ := h
  simp only [contentRanges, HeaderMap.set]
  induction entries with
  | nil => simp [HeaderMap.setEntry, equalsNoCase]
  | cons e rest ih =>
    rw [HeaderMap.setEntry]
    by_cases hname : equalsNoCase e.1 "Content-Range" = true
    · simp [hname]
    · simp only [hname, Bool.false_eq_true, if_false, List.filter_cons]
      exact ih

/-- Replacing comes to the same as adding only where there is nothing to replace. -/
theorem contentRanges_set_eq_append :
    contentRanges h ++ [value] = contentRanges (h.set "Content-Range" value) ↔
      contentRanges h = [] := by
  rw [contentRanges_set]
  cases contentRanges h with
  | nil => simp
  | cons a rest => simp

end ContentRange

/-! ## What the planes send -/

section Sides
variable {srv : ServerOptions} {hreq : LibraryRequest} {uuid : String} {res : Response}
variable {source : ByteSource}

/-- A body, as it is sent to the method of the request. -/
def LibraryRequest.bodied (hreq : LibraryRequest) (body : Bytes) : Bytes :=
  if hreq.method = "HEAD" then [] else body

/-- The whole of a stream, as the control plane sends it. -/
def wholeSent (hreq : LibraryRequest) (res : Response) (source : ByteSource) : Sent :=
  ⟨200, contentRanges res.headers, hreq.bodied (slice source 0 res.streamLength.toNat)⟩

theorem contentRanges_conclude (srv : ServerOptions) (hreq : LibraryRequest) (res : Response)
    (req : Request) :
    contentRanges (conclude srv hreq req res).1.headers =
      contentRanges (normalizeRange srv hreq res).1.headers := by
  unfold conclude
  split
  · rfl
  · exact contentRanges_set_of_ne _ _ (by decide)

theorem get_conclude {name : String} (srv : ServerOptions) (hreq : LibraryRequest) (res : Response)
    (req : Request) (hne : equalsNoCase "x-correlation-id" name = false) :
    (conclude srv hreq req res).1.headers.get name =
      (normalizeRange srv hreq res).1.headers.get name := by
  unfold conclude
  split
  · rfl
  · exact HeaderMap.get_set_of_ne _ _ hne

theorem conclude_request (srv : ServerOptions) (hreq : LibraryRequest) (res : Response)
    (req : Request) :
    (conclude srv hreq req res).2 = (normalizeRange srv hreq res).2 := by
  unfold conclude
  split <;> rfl

/-- The stream goes to the library, with the ranges that the normalization leaves. -/
theorem routed_stream (uuid : String) {hreq' : LibraryRequest} (hstream : res.stream = some source)
    (hlength : 0 ≤ res.streamLength) (hnormal : normalizeRange srv hreq res = (res, hreq')) :
    ∃ headers, contentRanges headers = contentRanges res.headers ∧
      routed srv hreq uuid res =
        ({ status := if hreq'.ranges = [] then 200 else -1, headers,
           provider := some (source, res.streamLength.toNat) }, hreq') := by
  have hheaders := contentRanges_conclude srv hreq res (makeRequest hreq uuid)
  have hrequest := conclude_request srv hreq res (makeRequest hreq uuid)
  have hkept : (conclude srv hreq (makeRequest hreq uuid) res).1.stream = some source ∧
      (conclude srv hreq (makeRequest hreq uuid) res).1.streamLength = res.streamLength := by
    unfold conclude
    split <;> simp [hnormal, hstream]
  rw [hnormal] at hheaders hrequest
  have hnonneg : ¬res.streamLength < 0 := by omega
  exact ⟨_, hheaders, by simp [routed, applyToHttplib, hkept, hrequest, hnonneg]⟩

theorem framed_whole {lib : LibraryResponse} {total : Nat} (hranges : hreq.ranges = [])
    (hprovider : lib.provider = some (source, total)) :
    framed hreq lib = some ⟨lib.status, contentRanges lib.headers,
      hreq.bodied (slice source 0 total)⟩ := by
  simp only [framed, hprovider, hranges, provided_eq, LibraryRequest.bodied]

/-- Without a range to apply, all of the stream is sent with status 200. -/
theorem written_whole {lib : LibraryResponse} {hreq' : LibraryRequest}
    (hstatus : lib.status = 200) (hheaders : contentRanges lib.headers = contentRanges res.headers)
    (hprovider : lib.provider = some (source, res.streamLength.toNat))
    (hranges : hreq'.ranges = []) (hmethod : hreq'.method = hreq.method) :
    written srv uuid res hreq' lib = some (wholeSent hreq res source) := by
  have hsmall : ¬400 ≤ lib.status := by omega
  rw [written, if_neg hsmall, framed_whole hranges hprovider, hstatus, hheaders, wholeSent,
    LibraryRequest.bodied, LibraryRequest.bodied, hmethod]

theorem normalizeRange_rangeless (srv : ServerOptions) (res : Response)
    (hrange : hreq.headers.get "Range" = none) :
    normalizeRange srv hreq res = (res, hreq) := by
  unfold normalizeRange
  split
  · rfl
  · simp [HeaderMap.value, hrange]

/-- A refusal of a header that is no range at all ends in the whole stream. -/
theorem written_malformed {lib : LibraryResponse} {hreq' : LibraryRequest} {header detail : String}
    (hstream : res.stream = some source) (hlength : 0 ≤ res.streamLength)
    (hrefused : lib.status = 416) (hget : hreq'.method = "GET" ∨ hreq'.method = "HEAD")
    (hheader : hreq'.headers.get "Range" = some header) (hranges : hreq'.ranges = [])
    (hmethod : hreq'.method = hreq.method)
    (hmalformed : parseRangeHeader header (-1) = .malformed detail) :
    written srv uuid res hreq' lib = some (wholeSent hreq res source) := by
  have hlarge : 400 ≤ lib.status := by omega
  have hhas : hreq'.headers.has "Range" = true := by simp [HeaderMap.has, hheader]
  have hvalue : hreq'.headers.value "Range" = header := by simp [HeaderMap.value, hheader]
  rw [written, if_pos hlarge, errorHandler]
  simp only [hrefused, hget, hhas, hvalue, hmalformed, and_self, if_true]
  have hrangeless : normalizeRange srv
      { hreq' with ranges := [], headers := hreq'.headers.remove "Range" } res = (res, _) :=
    normalizeRange_rangeless srv res (HeaderMap.get_remove _ _)
  obtain ⟨headers, hheaders, hrouted⟩ := routed_stream uuid hstream hlength hrangeless
  rw [hrouted, framed_whole hranges rfl]
  simp only [if_true, hheaders, wholeSent, LibraryRequest.bodied, hmethod]

/-- Any other header that the library refuses stays refused, with no `Content-Range`. -/
theorem written_refused {hreq' : LibraryRequest} {header : String}
    (hget : hreq'.method = "GET" ∨ hreq'.method = "HEAD")
    (hheader : hreq'.headers.get "Range" = some header)
    (hwell : ∀ detail, parseRangeHeader header (-1) ≠ .malformed detail) :
    written srv uuid res hreq' { status := 416 } =
      some ⟨416, [], hreq'.bodied (octetsOf (errorBody 416 "" srv.errorFormat))⟩ := by
  have hhas : hreq'.headers.has "Range" = true := by simp [HeaderMap.has, hheader]
  have hvalue : hreq'.headers.value "Range" = header := by simp [HeaderMap.value, hheader]
  have hjson : ¬Text.containsText (HeaderMap.value {} "Content-Type") "application/json" = true := by
    decide
  have hnone : contentRanges (HeaderMap.set {} "Content-Type" "application/json") = [] := by
    decide
  have hframed : framed hreq'
      { status := 416
        headers := HeaderMap.set {} "Content-Type" "application/json"
        body := errorBody 416 "" srv.errorFormat } =
      some ⟨416, [], hreq'.bodied (octetsOf (errorBody 416 "" srv.errorFormat))⟩ := by
    simp only [framed, hnone, LibraryRequest.bodied]
  rw [written, if_pos (by decide), errorHandler, ← hframed]
  simp only [hget, hhas, hvalue, hjson, and_self, if_true]
  cases hparse : parseRangeHeader header (-1) with
  | malformed detail => exact absurd hparse (hwell detail)
  | _ => rfl

/-- An error of our own goes out as it is, unless its header was no range at all. -/
theorem written_ours {lib : LibraryResponse} {hreq' : LibraryRequest} {header : String}
    (herror : 400 ≤ lib.status)
    (hheader : hreq'.headers.get "Range" = some header)
    (hwell : ∀ detail, parseRangeHeader header (-1) ≠ .malformed detail)
    (hjson : lib.headers.value "Content-Type" = "application/json")
    (hprovider : lib.provider = none) :
    written srv uuid res hreq' lib =
      some ⟨lib.status, contentRanges lib.headers, hreq'.bodied (octetsOf lib.body)⟩ := by
  have hvalue : hreq'.headers.value "Range" = header := by simp [HeaderMap.value, hheader]
  have hours : Text.containsText "application/json" "application/json" = true := by decide
  have hkept : errorHandler srv uuid res hreq' lib = lib := by
    simp only [errorHandler, hvalue, hjson, hours, if_true]
    cases hparse : parseRangeHeader header (-1) with
    | malformed detail => exact absurd hparse (hwell detail)
    | _ => simp
  rw [written, if_pos herror, hkept]
  simp only [framed, hprovider, LibraryRequest.bodied]

variable (opts : PlaneOptions) (kernel : Nat → Nat) (request : Request) (served : Nat)

theorem planeSent_eq (res : Response) :
    planeSent opts kernel request res served =
      let out := prepare opts request res
      ⟨out.status, contentRanges out.headers,
        if out.headOnly = true then []
        else
          match out.stream with
          | some source => (pumpStream opts kernel out source).1
          | none => octetsOf out.body⟩ := by
  have hempty : octetsOf "" = [] := by decide +kernel
  simp only [planeSent, writeResponse]
  generalize prepare opts request res = out
  congr 1
  · have hlength : equalsNoCase "Content-Length" "Content-Range" = false := by decide
    have htype : equalsNoCase "Content-Type" "Content-Range" = false := by decide
    have hconnection : equalsNoCase "Connection" "Content-Range" = false := by decide
    split <;> split <;>
      simp only [contentRanges_set_of_ne _ _ hconnection, contentRanges_set_of_ne _ _ hlength,
        contentRanges_remove_of_ne _ hlength, contentRanges_set_of_ne _ _ htype]
  · by_cases hhead : out.headOnly = true
    · simp [hhead, Payload.bytes, hempty]
    · simp only [hhead, Bool.false_eq_true, if_false]
      cases out.stream <;> rfl

end Sides

/-! ## Where they agree -/

section Agreement
variable {srv : ServerOptions} {opts : PlaneOptions} {hreq : LibraryRequest} {request : Request}
variable {uuid header : String} {res : Response} {source : ByteSource}

/-- The large-file plane can send the octets from `offset` on, or there are none to send. -/
def Sendable (hreq : LibraryRequest) (source : ByteSource) (offset length : Int) : Prop :=
  hreq.method = "HEAD" ∨ source.seekable = true ∨ source.content.length ≤ offset.toNat ∨ length ≤ 0

/-- The downloads on which the planes agree: the handler answers 200 where no range is asked
for, the library's parser accepts the header if ours does, a range is not only known to be
malformed when the length is not looked at, and the source can be addressed. -/
def PlanesAgreeOn (errorFormat : String) (hreq : LibraryRequest) (res : Response)
    (source : ByteSource) : Prop :=
  match hreq.headers.get "Range" with
  | none => res.status = 200 ∧ Sendable hreq source 0 res.streamLength
  | some header =>
    match parseRangeHeader header res.streamLength with
    | .absent =>
      res.status = 416 ∧ contentRanges res.headers = [] ∧
        (hreq.method = "HEAD" ∨ source.seekable = true ∧
          slice source 0 res.streamLength.toNat = octetsOf (errorBody 416 "" errorFormat))
    | .single r =>
      (libraryRanges header).isSome = true ∧ contentRanges res.headers = [] ∧
        Sendable hreq source r.first r.length
    | .multiple _ => True
    | .unsatisfiable _ =>
      (libraryRanges header).isSome = true ∧
        ∀ detail, parseRangeHeader header (-1) ≠ .malformed detail
    | .malformed _ => Sendable hreq source 0 res.streamLength

/-- The octets of the large-file plane. -/
def planeBody (request : Request) (source : ByteSource) (offset length : Int) : Bytes :=
  if request.isHead = true ∨ source.seekable = false then []
  else slice source offset.toNat length.toNat

/-- A blank header is not accepted by the library either. -/
theorem libraryRanges_blank (hblank : trim header.toList = []) : libraryRanges header = none := by
  have hall : ∀ c ∈ header.toList, isBlank c = true := by
    rw [trim, List.dropWhile_eq_nil_iff] at hblank
    apply List.rdropWhile_eq_nil_iff.mp
    by_contra hne
    exact List.rdropWhile_last_not isBlank _ hne (hblank _ (List.getLast_mem hne))
  have hunit : header.toList.take 6 ≠ "bytes=".toList := by
    intro h
    have hmem : 'b' ∈ header.toList.take 6 := by
      rw [h]
      decide
    exact absurd (hall _ (List.mem_of_mem_take hmem)) (by decide)
  rw [libraryRanges]
  exact if_neg fun h => hunit h.2

theorem errorBody_ne_nil (errorFormat : String) : octetsOf (errorBody 416 "" errorFormat) ≠ [] := by
  unfold errorBody
  split
  · decide +kernel
  · split <;> decide +kernel

theorem bodied_eq_planeBody (hhead : request.isHead = true ↔ hreq.method = "HEAD")
    (offset length : Int) :
    hreq.bodied (slice source offset.toNat length.toNat) = planeBody request source offset length ↔
      Sendable hreq source offset length := by
  by_cases hmethod : hreq.method = "HEAD"
  · simp [LibraryRequest.bodied, planeBody, Sendable, hmethod, hhead.mpr hmethod]
  · have hnot : ¬request.isHead = true := fun h => hmethod (hhead.mp h)
    cases hseek : source.seekable with
    | true => simp [LibraryRequest.bodied, planeBody, Sendable, hmethod, hnot, hseek]
    | false =>
      simp only [LibraryRequest.bodied, planeBody, Sendable, hmethod, hseek, slice, or_true,
        if_true, if_false, List.take_eq_nil_iff, List.drop_eq_nil_iff, false_or, Bool.false_eq_true]
      omega

/-- A refusal of the control plane has the body of a stream only where the stream holds it. -/
theorem refusal_eq_planeBody (hhead : request.isHead = true ↔ hreq.method = "HEAD")
    (errorFormat : String) (length : Int) :
    hreq.bodied (octetsOf (errorBody 416 "" errorFormat)) = planeBody request source 0 length ↔
      hreq.method = "HEAD" ∨ source.seekable = true ∧
        slice source 0 length.toNat = octetsOf (errorBody 416 "" errorFormat) := by
  have herror := errorBody_ne_nil errorFormat
  by_cases hmethod : hreq.method = "HEAD"
  · simp [LibraryRequest.bodied, planeBody, hmethod, hhead.mpr hmethod]
  · have hnot : ¬request.isHead = true := fun h => hmethod (hhead.mp h)
    cases hseek : source.seekable <;>
      simp [LibraryRequest.bodied, planeBody, hmethod, hnot, hseek, herror, eq_comm]

/-- What the large-file plane makes of an answer whose stream it sends. -/
theorem planeSent_stream {kernel : Nat → Nat} {served : Nat} {status offset length : Int}
    {headers : HeaderMap}
    (hout : prepare opts request res =
      { status, headers, body := res.body, stream := some source, offset, length,
        headOnly := request.isHead })
    (hoffset : 0 ≤ offset) :
    planeSent opts kernel request res served =
      ⟨status, contentRanges headers, planeBody request source offset length⟩ := by
  rw [planeSent_eq, hout]
  simp only [planeBody, pumpStream_eq, hoffset]
  cases request.isHead <;> cases source.seekable <;> rfl

theorem ne_empty_of_parsed {header : String} {total : Int} {result : RangeResult}
    (h : parseRangeHeader header total = result) (hresult : result ≠ .absent) : header ≠ "" := by
  rintro rfl
  exact hresult h.symm

/-- A download that both planes get, with a stream of known length for an answer. -/
structure SameDownload (srv : ServerOptions) (opts : PlaneOptions) (hreq : LibraryRequest)
    (request : Request) (res : Response) (source : ByteSource) : Prop where
  method : hreq.method = "GET" ∨ hreq.method = "HEAD"
  headers : request.headers = hreq.headers
  isHead : request.isHead = true ↔ hreq.method = "HEAD"
  stream : res.stream = some source
  known : 0 ≤ res.streamLength
  errorFormat : opts.errorFormat = srv.errorFormat

variable (same : SameDownload srv opts hreq request res source)
include same

theorem SameDownload.not_unknown : ¬res.streamLength < 0 := not_lt.mpr same.known

theorem controlSent_rangeless (hrange : hreq.headers.get "Range" = none) :
    controlSent srv hreq uuid res = some (wholeSent hreq res source) := by
  have hrangeless : normalizeRange srv { hreq with ranges := [] } res = (res, _) :=
    normalizeRange_rangeless srv res hrange
  obtain ⟨headers, hheaders, hrouted⟩ := routed_stream uuid same.stream same.known hrangeless
  simp only [controlSent, hrange, hrouted, if_true]
  exact written_whole rfl hheaders rfl rfl rfl

theorem planeSent_rangeless {kernel : Nat → Nat} {served : Nat}
    (hrange : hreq.headers.get "Range" = none) :
    planeSent opts kernel request res served =
      ⟨res.status, contentRanges res.headers, planeBody request source 0 res.streamLength⟩ := by
  apply planeSent_stream _ le_rfl
  simp [prepare, same.stream, same.headers, hrange, same.not_unknown]

variable (hheader : hreq.headers.get "Range" = some header)
include hheader

theorem controlSent_ignored {detail : String} (hlibrary : libraryRanges header = none)
    (hmalformed : parseRangeHeader header (-1) = .malformed detail) :
    controlSent srv hreq uuid res = some (wholeSent hreq res source) := by
  simp only [controlSent, hheader, hlibrary]
  exact written_malformed same.stream same.known rfl same.method hheader rfl rfl hmalformed

theorem controlSent_refused (hlibrary : libraryRanges header = none)
    (hwell : ∀ detail, parseRangeHeader header (-1) ≠ .malformed detail) :
    controlSent srv hreq uuid res =
      some ⟨416, [], hreq.bodied (octetsOf (errorBody 416 "" srv.errorFormat))⟩ := by
  simp only [controlSent, hheader, hlibrary]
  exact written_refused same.method hheader hwell

/-- What the control plane sends instead of a partial response is none. -/
theorem controlSent_no_range (uuid : String) (hlibrary : libraryRanges header = none) :
    ∃ sent, controlSent srv hreq uuid res = some sent ∧
      (sent.status = 200 ∨ sent.status = 416 ∧ sent.contentRanges = []) := by
  by_cases hmalformed : ∃ detail, parseRangeHeader header (-1) = .malformed detail
  · obtain ⟨detail, hmalformed⟩ := hmalformed
    exact ⟨_, controlSent_ignored same hheader hlibrary hmalformed, .inl rfl⟩
  · exact ⟨_, controlSent_refused same hheader hlibrary (not_exists.mp hmalformed),
      .inr ⟨rfl, rfl⟩⟩

theorem planeSent_single {kernel : Nat → Nat} {served : Nat} {r : ByteRange}
    (hparse : parseRangeHeader header res.streamLength = .single r) :
    planeSent opts kernel request res served =
      ⟨206, contentRanges (res.headers.set "Content-Range" (formatContentRange r res.streamLength)),
        planeBody request source r.first r.length⟩ := by
  apply planeSent_stream _ (parseRangeHeader_single hparse)
  simp [prepare, same.stream, same.headers, hheader, hparse, same.not_unknown]

theorem planeSent_malformed {kernel : Nat → Nat} {served : Nat} {detail : String}
    (hparse : parseRangeHeader header res.streamLength = .malformed detail) :
    planeSent opts kernel request res served =
      ⟨200, contentRanges res.headers, planeBody request source 0 res.streamLength⟩ := by
  apply planeSent_stream _ le_rfl
  simp [prepare, same.stream, same.headers, hheader, hparse, same.not_unknown]

theorem planeSent_absent {kernel : Nat → Nat} {served : Nat}
    (hparse : parseRangeHeader header res.streamLength = .absent) :
    planeSent opts kernel request res served =
      ⟨res.status, contentRanges res.headers, planeBody request source 0 res.streamLength⟩ := by
  apply planeSent_stream _ le_rfl
  simp [prepare, same.stream, same.headers, hheader, hparse, same.not_unknown]

theorem planeSent_unsatisfiable {kernel : Nat → Nat} {served : Nat} {detail : String}
    (hparse : parseRangeHeader header res.streamLength = .unsatisfiable detail) :
    planeSent opts kernel request res served =
      ⟨416, [formatUnsatisfiedContentRange res.streamLength],
        hreq.bodied (octetsOf (errorBody 416 detail srv.errorFormat))⟩ := by
  have hrange := contentRanges_set (HeaderMap.set {} "Content-Type" "application/json")
    (formatUnsatisfiedContentRange res.streamLength)
  have hnone : contentRanges (HeaderMap.set {} "Content-Type" "application/json") = [] := by
    decide
  rw [planeSent_eq]
  simp only [prepare, same.stream, same.headers, hheader, hparse, same.not_unknown, if_false,
    PlaneOptions.error, errorResponse, hrange, hnone, same.errorFormat, LibraryRequest.bodied,
    same.isHead, List.tail_nil]

/-- The error of the control plane for a range outside of the object. -/
theorem routed_unsatisfiable (uuid : String) (ranges : List (Int × Int)) {detail : String}
    (hparse : parseRangeHeader header res.streamLength = .unsatisfiable detail) :
    ∃ headers, contentRanges headers = [formatUnsatisfiedContentRange res.streamLength] ∧
      headers.value "Content-Type" = "application/json" ∧
      routed srv { hreq with ranges } uuid res =
        ({ status := 416, headers, body := errorBody 416 detail srv.errorFormat },
          { hreq with ranges := [] }) := by
  have hne := ne_empty_of_parsed hparse (by simp)
  have hnormal : normalizeRange srv { hreq with ranges } res =
      ({ srv.error 416 detail with
          headers := (srv.error 416 detail).headers.set "Content-Range"
            (formatUnsatisfiedContentRange res.streamLength) }, { hreq with ranges := [] }) := by
    simp [normalizeRange, same.stream, HeaderMap.value, hheader, hne, same.not_unknown, hparse]
  refine ⟨(conclude srv { hreq with ranges } (makeRequest { hreq with ranges } uuid) res).1.headers,
    ?_, ?_, ?_⟩
  · rw [contentRanges_conclude, hnormal, contentRanges_set]
    congr 1
  · rw [HeaderMap.value, get_conclude _ _ _ _ (by decide), hnormal,
      HeaderMap.get_set_of_ne _ _ (by decide)]
    rfl
  · unfold routed conclude
    split <;> simp only [hnormal, applyToHttplib, ServerOptions.error, errorResponse]

variable {ranges : List (Int × Int)} (hlibrary : libraryRanges header = some ranges)
include hlibrary

theorem controlSent_single {r : ByteRange}
    (hparse : parseRangeHeader header res.streamLength = .single r) :
    controlSent srv hreq uuid res =
      some ⟨206, contentRanges res.headers ++ [formatContentRange r res.streamLength],
        hreq.bodied (slice source r.first.toNat r.length.toNat)⟩ := by
  have hne := ne_empty_of_parsed hparse (by simp)
  have hnormal : normalizeRange srv { hreq with ranges } res =
      (res, { hreq with ranges := [(r.first, r.last)] }) := by
    simp [normalizeRange, same.stream, HeaderMap.value, hheader, hne, same.not_unknown, hparse]
  obtain ⟨headers, hheaders, hrouted⟩ := routed_stream uuid same.stream same.known hnormal
  simp [controlSent, hheader, hlibrary, hrouted, written, framed, hheaders, provided_eq,
    Int.toNat_of_nonneg same.known, LibraryRequest.bodied, ByteRange.length]

theorem controlSent_malformed {detail : String}
    (hparse : parseRangeHeader header res.streamLength = .malformed detail) :
    controlSent srv hreq uuid res = some (wholeSent hreq res source) := by
  have hne := ne_empty_of_parsed hparse (by simp)
  have hnormal : normalizeRange srv { hreq with ranges } res =
      (res, { hreq with ranges := [], headers := hreq.headers.remove "Range" }) := by
    simp [normalizeRange, same.stream, HeaderMap.value, hheader, hne, same.not_unknown, hparse]
  obtain ⟨headers, hheaders, hrouted⟩ := routed_stream uuid same.stream same.known hnormal
  simp only [controlSent, hheader, hlibrary, hrouted, if_true]
  exact written_whole rfl hheaders rfl rfl rfl

theorem controlSent_unsatisfiable {detail : String}
    (hparse : parseRangeHeader header res.streamLength = .unsatisfiable detail)
    (hwell : ∀ detail, parseRangeHeader header (-1) ≠ .malformed detail) :
    controlSent srv hreq uuid res =
      some ⟨416, [formatUnsatisfiedContentRange res.streamLength],
        hreq.bodied (octetsOf (errorBody 416 detail srv.errorFormat))⟩ := by
  obtain ⟨headers, hheaders, hjson, hrouted⟩ := routed_unsatisfiable same hheader uuid ranges hparse
  simp only [controlSent, hheader, hlibrary, hrouted]
  rw [← hheaders]
  exact written_ours (show (400 : Int) ≤ 416 by decide) hheader hwell hjson rfl

/-- A range that is malformed only as long as the length is not looked at. -/
theorem controlSent_overruled {detail detail' : String}
    (hparse : parseRangeHeader header res.streamLength = .unsatisfiable detail)
    (hmalformed : parseRangeHeader header (-1) = .malformed detail') :
    controlSent srv hreq uuid res = some (wholeSent hreq res source) := by
  obtain ⟨headers, -, -, hrouted⟩ := routed_unsatisfiable same hheader uuid ranges hparse
  simp only [controlSent, hheader, hlibrary, hrouted]
  exact written_malformed same.stream same.known rfl same.method hheader rfl rfl hmalformed

end Agreement

/-- The planes answer a download alike exactly where they agree on it, a header with several
ranges apart. -/
theorem controlSent_eq_planeSent_iff {srv : ServerOptions} {opts : PlaneOptions}
    {hreq : LibraryRequest} {request : Request} {res : Response} {source : ByteSource}
    (same : SameDownload srv opts hreq request res source)
    (hsingle : ∀ header, hreq.headers.get "Range" = some header →
      ∀ ranges, parseRangeHeader header res.streamLength ≠ .multiple ranges)
    (uuid : String) (kernel : Nat → Nat) (served : Nat) :
    controlSent srv hreq uuid res = some (planeSent opts kernel request res served) ↔
      PlanesAgreeOn srv.errorFormat hreq res source := by
  have hbodies := @bodied_eq_planeBody hreq request source same.isHead
  unfold PlanesAgreeOn
  cases hheader : hreq.headers.get "Range" with
  | none =>
    rw [controlSent_rangeless same hheader, planeSent_rangeless same hheader]
    simp [wholeSent, ← hbodies, eq_comm]
  | some header =>
    dsimp only
    cases hparse : parseRangeHeader header res.streamLength with
    | absent =>
      have hblank := parseRangeHeader_absent.mp hparse
      have hwell : ∀ detail, parseRangeHeader header (-1) ≠ .malformed detail := by
        simp [parseRangeHeader_absent.mpr hblank]
      rw [controlSent_refused same hheader (libraryRanges_blank hblank) hwell,
        planeSent_absent same hheader hparse, ← refusal_eq_planeBody same.isHead,
        Option.some.injEq, Sent.mk.injEq]
      exact and_congr eq_comm (and_congr eq_comm Iff.rfl)
    | single r =>
      rw [planeSent_single same hheader hparse]
      cases hlibrary : libraryRanges header with
      | none =>
        obtain ⟨sent, hsent, hstatus⟩ := controlSent_no_range same hheader uuid hlibrary
        have hdiffer : sent.status ≠ 206 := by omega
        rw [hsent]
        simp only [Option.isSome_none, Bool.false_eq_true, false_and, iff_false]
        intro h
        cases h
        exact hdiffer rfl
      | some ranges =>
        rw [controlSent_single same hheader hlibrary hparse]
        simp [hbodies, contentRanges_set_eq_append]
    | multiple ranges => exact absurd hparse (hsingle header hheader ranges)
    | unsatisfiable detail =>
      rw [planeSent_unsatisfiable same hheader hparse]
      cases hlibrary : libraryRanges header with
      | none =>
        obtain ⟨sent, hsent, hstatus⟩ := controlSent_no_range same hheader uuid hlibrary
        rw [hsent]
        simp only [Option.isSome_none, Bool.false_eq_true, false_and, iff_false]
        intro h
        cases h
        simp at hstatus
      | some ranges =>
        by_cases hmalformed : ∃ detail', parseRangeHeader header (-1) = .malformed detail'
        · obtain ⟨detail', hmalformed⟩ := hmalformed
          rw [controlSent_overruled same hheader hlibrary hparse hmalformed]
          simp [wholeSent, hmalformed]
        · have hwell := not_exists.mp hmalformed
          rw [controlSent_unsatisfiable same hheader hlibrary hparse hwell]
          simpa using hwell
    | malformed detail =>
      obtain ⟨detail', hmalformed⟩ := parseRangeHeader_malformed same.known hparse
      have hcontrol : controlSent srv hreq uuid res = some (wholeSent hreq res source) := by
        cases hlibrary : libraryRanges header with
        | none => exact controlSent_ignored same hheader hlibrary hmalformed
        | some ranges => exact controlSent_malformed same hheader hlibrary hparse
      rw [hcontrol, planeSent_malformed same hheader hparse]
      simp [wholeSent, ← hbodies]

/-! ## A partial download -/

section Sample

def threeOctets : ByteSource where
  content := [97, 98, 99]
  seekable := true
  nativeFd := false
  short := fun _ => 1

def sampleStream : Response := { stream := some threeOctets, streamLength := 3 }

/-- A download of the first two octets, with the unit and the set as given. -/
def sampleDownload (range : String) : LibraryRequest where
  method := "GET"
  target := "/api/file/v1/transfer/t"
  path := "/api/file/v1/transfer/t"
  headers := ⟨[("Range", range)]⟩

theorem sampleDownload_same (range : String) :
    SameDownload {} {} (sampleDownload range) (makeRequest (sampleDownload range) "id") sampleStream
      threeOctets where
  method := .inl rfl
  headers := rfl
  isHead := by simp [makeRequest, sampleDownload, parseMethod]
  stream := rfl
  known := by decide
  errorFormat := rfl

theorem sampleDownload_agrees :
    controlSent {} (sampleDownload "bytes=0-1") "id" sampleStream =
      some (planeSent {} (fun _ => 1) (makeRequest (sampleDownload "bytes=0-1") "id")
        sampleStream 0) := by
  have hget : (sampleDownload "bytes=0-1").headers.get "Range" = some "bytes=0-1" := by
    decide
  have hparse : parseRangeHeader "bytes=0-1" 3 = .single ⟨0, 1⟩ := by decide
  apply (controlSent_eq_planeSent_iff (sampleDownload_same "bytes=0-1") _ "id" (fun _ => 1) 0).mpr
  · exact ⟨by decide, by decide, .inr (.inl rfl)⟩
  · intro header hheader ranges hmultiple
    obtain rfl := Option.some.inj (hget.symm.trans hheader)
    exact absurd (hparse.symm.trans hmultiple) (by simp)

/-- With blanks around the equals sign, the control plane refuses what the other plane serves:
its error handler leaves a refusal alone when our parser does not find the header malformed. -/
theorem spaced_range_differs :
    (controlSent {} (sampleDownload "bytes = 0-1") "id" sampleStream).map Sent.status = some 416 ∧
      planeSent {} (fun _ => 1) (makeRequest (sampleDownload "bytes = 0-1") "id") sampleStream 0 =
        ⟨206, ["bytes 0-1/3"], [97, 98]⟩ := by
  decide

end Sample

end FileService.Http
