import FileService.Common.Text
import FileService.Domain.Types

/-!
# Requests and responses

A text of a message is a list of octets, each kept as one character. Header
names are compared without their case, in the C locale. A response carries its
body either as a text or as a source that is read when the body is sent.
-/
namespace FileService.Http
open FileService.Common FileService.Domain

/-! ## Header maps -/

def equalsNoCase (a b : String) : Bool := Text.toLower a == Text.toLower b

structure HeaderMap where
  entries : List (String × String) := []
deriving DecidableEq, Repr

namespace HeaderMap

def setEntry (name value : String) : List (String × String) → List (String × String)
  | [] => [(name, value)]
  | (k, v) :: rest =>
    if equalsNoCase k name then (k, value) :: rest else (k, v) :: setEntry name value rest

def set (h : HeaderMap) (name value : String) : HeaderMap := ⟨setEntry name value h.entries⟩

def add (h : HeaderMap) (name value : String) : HeaderMap := ⟨h.entries ++ [(name, value)]⟩

def remove (h : HeaderMap) (name : String) : HeaderMap :=
  ⟨h.entries.filter fun e => !equalsNoCase e.1 name⟩

def get (h : HeaderMap) (name : String) : Option String :=
  (h.entries.find? fun e => equalsNoCase e.1 name).map Prod.snd

def has (h : HeaderMap) (name : String) : Bool := (h.get name).isSome

def count (h : HeaderMap) (name : String) : Nat :=
  (h.entries.filter fun e => equalsNoCase e.1 name).length

/-- `get_header_value`: the first value under the name, or nothing. -/
def value (h : HeaderMap) (name : String) : String := (h.get name).getD ""

section
variable {a b c name : String} (h : HeaderMap) (value : String)

theorem equalsNoCase_iff : equalsNoCase a b = true ↔ Text.toLower a = Text.toLower b := by
  simp [equalsNoCase]

/-- A name that equals one of two different names is not the other. -/
theorem equalsNoCase_of_ne (hne : equalsNoCase name b = false) (h : equalsNoCase a name = true) :
    equalsNoCase a b = false := by
  rw [equalsNoCase_iff] at h
  simpa [equalsNoCase, h] using hne

theorem find?_setEntry_of_ne (hne : equalsNoCase name b = false) (entries : List (String × String)) :
    (setEntry name value entries).find? (fun e => equalsNoCase e.1 b) =
      entries.find? fun e => equalsNoCase e.1 b := by
  induction entries with
  | nil => simp [setEntry, hne]
  | cons e rest ih =>
    rw [setEntry]
    by_cases hname : equalsNoCase e.1 name = true
    · simp [hname, equalsNoCase_of_ne hne hname]
    · simp only [hname, Bool.false_eq_true, if_false, List.find?_cons, ih]

theorem get_set_of_ne (hne : equalsNoCase name b = false) : (h.set name value).get b = h.get b := by
  rw [get, get, set, find?_setEntry_of_ne value hne]

theorem get_remove (name : String) : (h.remove name).get name = none := by
  rw [get, Option.map_eq_none_iff, List.find?_eq_none, remove]
  intro e he
  simpa using (List.mem_filter.mp he).2

end

end HeaderMap

/-! ## Methods -/

inductive Method where
  | get
  | post
  | put
  | delete
  | head
  | options
  | patch
  | unknown
deriving DecidableEq, Repr

def parseMethod (raw : String) : Method :=
  if raw = "GET" then .get
  else if raw = "POST" then .post
  else if raw = "PUT" then .put
  else if raw = "DELETE" then .delete
  else if raw = "HEAD" then .head
  else if raw = "OPTIONS" then .options
  else if raw = "PATCH" then .patch
  else .unknown

/-! ## Byte sources -/

/-- A source with fixed contents. The read with number `k` hands out at most `short k` bytes,
and at least one while there are any. -/
structure ByteSource where
  content : Bytes
  seekable : Bool
  nativeFd : Bool
  short : Nat → Nat

/-- `Seek`: a source that cannot be addressed refuses, and none goes beyond its end. -/
def ByteSource.seek (source : ByteSource) (offset : Int) : Bool :=
  source.seekable && decide (0 ≤ offset) && decide (offset ≤ source.content.length)

/-- Read number `k`, at the position `pos`: nothing is left when it is empty. -/
def ByteSource.readAt (source : ByteSource) (pos k capacity : Nat) : Bytes :=
  (source.content.drop pos).take (min capacity (max 1 (source.short k)))

theorem readAt_length (source : ByteSource) (pos k capacity : Nat) :
    (source.readAt pos k capacity).length ≤ min capacity (source.content.length - pos) := by
  rw [ByteSource.readAt, List.length_take, List.length_drop]
  omega

/-- Read until `remaining` octets have come or none are left, each time at most `capacity`.
The fuel bounds the number of reads. -/
def ByteSource.readLoop (source : ByteSource) (capacity : Nat) : Nat → Nat → Nat → Nat → Bytes
  | 0, _, _, _ => []
  | fuel + 1, remaining, pos, k =>
    let got := source.readAt pos k (min remaining capacity)
    if got = [] then []
    else got ++ source.readLoop capacity fuel (remaining - got.length) (pos + got.length) (k + 1)

/-- A first part and then what is missing. -/
theorem take_append_missing {n m : Nat} (h : n ≤ m) (xs : Bytes) :
    xs.take n ++ (xs.drop (xs.take n).length).take (m - (xs.take n).length) = xs.take m := by
  rcases Nat.le_total n xs.length with hn | hn
  · rw [List.length_take_of_le hn, ← List.take_add, Nat.add_sub_cancel' h]
  · simp [List.take_of_length_le hn, List.take_of_length_le (hn.trans h)]

/-- Short reads make no difference to what is read. -/
theorem ByteSource.readLoop_eq (source : ByteSource) {capacity : Nat} (hcapacity : 0 < capacity)
    (fuel remaining pos k : Nat) (hfuel : remaining ≤ fuel) :
    source.readLoop capacity fuel remaining pos k = (source.content.drop pos).take remaining := by
  induction fuel generalizing remaining pos k with
  | zero =>
    obtain rfl : remaining = 0 := Nat.le_zero.mp hfuel
    simp [readLoop]
  | succ fuel ih =>
    rw [readLoop]
    by_cases hgot : source.readAt pos k (min remaining capacity) = []
    · rw [if_pos hgot]
      simp only [readAt, List.take_eq_nil_iff] at hgot
      rcases hgot with hnone | hend
      · have hzero : remaining = 0 := by omega
        simp [hzero]
      · simp [hend]
    · rw [if_neg hgot]
      have hpos := List.length_pos_iff.mpr hgot
      rw [ih _ _ _ (by omega), ← List.drop_drop]
      exact take_append_missing ((min_le_left _ _).trans (min_le_left _ _)) _

structure Request where
  method : Method := .unknown
  methodRaw : String := ""
  path : String := ""
  query : String := ""
  headers : HeaderMap := {}
  correlationId : String := ""
  body : Bytes := []
  isChunked : Bool := false
  contentLength : Int := -1
  isHead : Bool := false
  routeParams : List (String × String) := []

structure Response where
  status : Int := 200
  headers : HeaderMap := {}
  body : String := ""
  stream : Option ByteSource := none
  streamLength : Int := -1

/-- The status means success; a negative one leaves the choice of 200 or 206 to the library. -/
def Response.succeeded (res : Response) : Bool :=
  decide (res.status < 0) || (decide (200 ≤ res.status) && decide (res.status < 300))

/-! ## Errors of the transport layer -/

def hexDigit (n : Nat) : Char := "0123456789abcdef".toList.getD n '0'

def escapeChar (c : Char) : List Char :=
  if c = '"' then ['\\', '"']
  else if c = '\\' then ['\\', '\\']
  else if c = '\n' then ['\\', 'n']
  else if c = '\r' then ['\\', 'r']
  else if c = '\t' then ['\\', 't']
  else if c.toNat < 0x20 then
    ['\\', 'u', '0', '0', hexDigit (c.toNat / 16), hexDigit (c.toNat % 16)]
  else [c]

def jsonEscape (s : String) : String := String.ofList (s.toList.flatMap escapeChar)

def statusMessage (status : Int) : String :=
  if status = 400 then "Bad Request"
  else if status = 404 then "Not Found"
  else if status = 405 then "Method Not Allowed"
  else if status = 408 then "Request Timeout"
  else if status = 409 then "Conflict"
  else if status = 413 then "Payload Too Large"
  else if status = 414 then "URI Too Long"
  else if status = 416 then "Range Not Satisfiable"
  else if status = 429 then "Too Many Requests"
  else if status = 431 then "Request Header Fields Too Large"
  else if status = 500 then "Internal Server Error"
  else if status = 501 then "Not Implemented"
  else if status = 502 then "Bad Gateway"
  else if status = 503 then "Service Unavailable"
  else "Error"

/-- One of three shapes, chosen by `error_format`. -/
def errorBody (status : Int) (detail errorFormat : String) : String :=
  let esc := jsonEscape detail
  let message := statusMessage status
  let reasons := if esc = "" then "" else "\x7b\"reason\":\"" ++ esc ++ "\"\x7d"
  if errorFormat = "legacy" then
    "\x7b\"error\":\x7b\"code\":" ++ toString status ++ ",\"message\":\"" ++ message
      ++ "\",\"errors\":[" ++ reasons ++ "]\x7d\x7d"
  else if errorFormat = "api_error" then
    "\x7b\"code\":" ++ toString status ++ ",\"reason\":\"" ++ message ++ "\",\"message\":\""
      ++ (if esc = "" then message else esc) ++ "\"\x7d"
  else
    "\x7b\"code\":" ++ toString status ++ ",\"message\":\"" ++ message ++ "\",\"details\":["
      ++ reasons ++ "]\x7d"

def errorResponse (errorFormat : String) (status : Int) (detail : String) : Response :=
  { status, body := errorBody status detail errorFormat,
    headers := HeaderMap.set {} "Content-Type" "application/json" }

theorem succeeded_iff (res : Response) :
    res.succeeded = true ↔ res.status < 0 ∨ 200 ≤ res.status ∧ res.status < 300 := by
  simp [Response.succeeded]

@[simp] theorem errorResponse_status (errorFormat : String) (status : Int) (detail : String) :
    (errorResponse errorFormat status detail).status = status := rfl

@[simp] theorem errorResponse_stream (errorFormat : String) (status : Int) (detail : String) :
    (errorResponse errorFormat status detail).stream = none := rfl

/-- An error response is no success. -/
theorem not_succeeded_errorResponse {status : Int} (errorFormat detail : String)
    (h : 300 ≤ status) : ¬ (errorResponse errorFormat status detail).succeeded = true := by
  rw [succeeded_iff, errorResponse_status]
  omega

end FileService.Http
