import FileService.Transfer.Token
import FileService.Common.Delimited
import FileService.Common.Percent

/-!
# URLs

An absolute URL is cut into its parts from both ends, and put together again
from them. Letters of the scheme and the host become small, a path that is not
there becomes the root, and an empty query is none.
-/

/-!
## Query strings

Keys and values are percent-encoded and joined by separators that no encoded
text contains. The reader refuses what is no escape, takes the plus sign for a
space if it is asked to, and passes over empty items.
-/
namespace FileService.Net
open FileService.Common FileService.Common.Delimited FileService.Domain
open FileService.Common.Crypto (textOf)

/-! ## Percent encoding -/

def isUnreserved (c : UInt8) : Bool :=
  (65 ≤ c && c ≤ 90) || (97 ≤ c && c ≤ 122) || (48 ≤ c && c ≤ 57) ||
    c == 45 || c == 46 || c == 95 || c == 126

/-- The sub-delims: `!`, `$`, `&`, `'`, `(`, `)`, `*`, `+`, `,`, `;` and `=`. -/
def isSubDelim (c : UInt8) : Bool := [33, 36, 38, 39, 40, 41, 42, 43, 44, 59, 61].contains c

/-- `AppendEncoded` -/
def encoded (keepSubDelims : Bool) (text : Bytes) : Bytes :=
  Percent.encode (fun c => isUnreserved c ||
    (keepSubDelims && (isSubDelim c || c == 58 || c == 64))) text

def percentEncode (text : Bytes) : Bytes := encoded false text

def percentEncodePathSegment (text : Bytes) : Bytes := encoded true text

/-- A text as it stands in a message. -/
def shown (data : Bytes) : String :=
  (textOf data).getD (String.ofList (data.map fun c => Char.ofNat c.toNat))

def percentDecode (plusAsSpace : Bool) : Bytes → Result Bytes
  | [] => .ok []
  | c :: rest =>
    if c = 37 then
      match rest with
      | a :: b :: later =>
        match Percent.escaped? a b with
        | some octet => (percentDecode plusAsSpace later).map (octet :: ·)
        | none => .error (err .invalidArgument ("百分号编码非法：'%" ++ shown [a, b] ++ "'"))
      | _ => .error (err .invalidArgument ("百分号编码不完整：'" ++ shown (c :: rest) ++ "'"))
    else if c = 43 ∧ plusAsSpace then (percentDecode plusAsSpace rest).map (32 :: ·)
    else (percentDecode plusAsSpace rest).map (c :: ·)

/-! ## Items -/

abbrev QueryParams := List (Bytes × Bytes)

/-- An item without an equals sign is a key without a value. -/
def parseItem (plusAsSpace : Bool) (pair : Bytes) : Result (Bytes × Bytes) := do
  let (rawKey, rawValue) := cut 61 pair
  let key ← percentDecode plusAsSpace rawKey
  let value ← percentDecode plusAsSpace rawValue
  return (key, value)

def parseQuery (query : Bytes) (plusAsSpace : Bool) : Result QueryParams :=
  let query := if query.head? = some 63 then query.tail else query
  ((query.splitOn 38).filter (· ≠ [])).mapM (parseItem plusAsSpace)

def buildItem (p : Bytes × Bytes) : Bytes := percentEncode p.1 ++ 61 :: percentEncode p.2

def buildQuery (params : QueryParams) : Bytes := [38].intercalate (params.map buildItem)

/-! ## What is written is read back -/

section RoundTrip
variable {plusAsSpace : Bool} {c : UInt8} {text : Bytes}

theorem percentDecode_cons (hpercent : c ≠ 37) (hplus : plusAsSpace = true → c ≠ 43) :
    percentDecode plusAsSpace (c :: text) = (percentDecode plusAsSpace text).map (c :: ·) := by
  have hnot : ¬(c = 43 ∧ plusAsSpace = true) := fun h => hplus h.2 h.1
  rw [percentDecode.eq_def]
  dsimp only
  rw [if_neg hpercent, if_neg hnot]

theorem percentDecode_escape (c : UInt8) : percentDecode plusAsSpace
      (37 :: Percent.hexUpper (c.toNat / 16) :: Percent.hexUpper (c.toNat % 16) :: text) =
    (percentDecode plusAsSpace text).map (c :: ·) := by
  rw [percentDecode.eq_def]
  dsimp only
  rw [if_pos rfl, Percent.escaped_hexUpper]

theorem percentDecode_encode {keep : UInt8 → Bool} (hpercent : keep 37 = false)
    (hplus : plusAsSpace = true → keep 43 = false) (text : Bytes) :
    percentDecode plusAsSpace (Percent.encode keep text) = .ok text := by
  induction text with
  | nil => rfl
  | cons c text ih =>
    unfold Percent.encode at ih ⊢
    rw [List.flatMap_cons, Percent.encodeOctet]
    split_ifs with hc
    · rw [List.singleton_append, percentDecode_cons, ih]
      · rfl
      · rintro rfl
        exact Bool.false_ne_true (hpercent.symm.trans hc)
      · rintro hspace rfl
        exact Bool.false_ne_true ((hplus hspace).symm.trans hc)
    · simp only [List.cons_append, List.nil_append]
      rw [percentDecode_escape, ih]
      rfl

theorem percentDecode_percentEncode (text : Bytes) :
    percentDecode plusAsSpace (percentEncode text) = .ok text :=
  percentDecode_encode (by decide) (fun _ => by decide) text

theorem hexUpper_mem {n : Nat} (hn : n < 16) :
    Percent.hexUpper n ∈ Crypto.octets "0123456789ABCDEF" := by
  have hall : ∀ m : Fin 16, Percent.hexUpper m.val ∈ Crypto.octets "0123456789ABCDEF" := by decide
  exact hall ⟨n, hn⟩

/-- An encoded text has no question mark and no separator. -/
theorem notMem_percentEncode {d : UInt8} (hd : d = 38 ∨ d = 61 ∨ d = 63) (text : Bytes) :
    d ∉ percentEncode text := by
  have hplain : isUnreserved d = false ∧ d ≠ 37 ∧ d ∉ Crypto.octets "0123456789ABCDEF" := by
    rcases hd with rfl | rfl | rfl <;> decide
  obtain ⟨hkeep, hpercent, hhex⟩ := hplain
  apply Percent.notMem_encode
  · simpa using hkeep
  · exact hpercent
  · intro n hn h
    exact hhex (h ▸ hexUpper_mem hn)

theorem parseItem_buildItem (p : Bytes × Bytes) : parseItem plusAsSpace (buildItem p) = .ok p := by
  unfold parseItem buildItem
  rw [cut_append (notMem_percentEncode (.inr (.inl rfl)) p.1)]
  dsimp only
  rw [percentDecode_percentEncode, percentDecode_percentEncode]
  rfl

theorem buildItem_plain (p : Bytes × Bytes) :
    38 ∉ buildItem p ∧ buildItem p ≠ [] ∧ (buildItem p).head? ≠ some 63 := by
  have hkey := notMem_percentEncode (.inr (.inr rfl)) p.1
  refine ⟨?_, by simp [buildItem], fun h => ?_⟩
  · simp only [buildItem, List.mem_append, List.mem_cons, not_or]
    exact ⟨notMem_percentEncode (.inl rfl) p.1, by decide, notMem_percentEncode (.inl rfl) p.2⟩
  · unfold buildItem at h
    cases hencoded : percentEncode p.1 with
    | nil =>
      rw [hencoded] at h
      cases h
    | cons c rest =>
      rw [hencoded] at h hkey
      cases h
      exact hkey List.mem_cons_self

theorem head?_buildQuery (params : QueryParams) : (buildQuery params).head? ≠ some 63 := by
  cases params with
  | nil => simp [buildQuery]
  | cons p params =>
    obtain ⟨-, hsome, hhead⟩ := buildItem_plain p
    cases hitem : buildItem p with
    | nil => exact absurd hitem hsome
    | cons c rest =>
      rw [hitem] at hhead
      cases params <;> simpa [buildQuery, hitem] using hhead

/-- A query that was built is read back in order, and so is every encoded text. -/
theorem query_round_trip (params : QueryParams) (plusAsSpace : Bool) (text : Bytes) :
    parseQuery (buildQuery params) plusAsSpace = .ok params ∧
      percentDecode false (percentEncode text) = .ok text ∧
      percentDecode false (percentEncodePathSegment text) = .ok text := by
  refine ⟨?_, percentDecode_percentEncode text, ?_⟩
  · unfold parseQuery
    dsimp only
    rw [if_neg (head?_buildQuery params)]
    cases params with
    | nil => rfl
    | cons p params =>
      have hitems : (buildQuery (p :: params)).splitOn 38 = (p :: params).map buildItem := by
        apply List.splitOn_intercalate
        · rintro item hitem
          obtain ⟨q, -, rfl⟩ := List.mem_map.mp hitem
          exact (buildItem_plain q).1
        · simp
      have hfull : ((p :: params).map buildItem).filter (· ≠ []) = (p :: params).map buildItem := by
        apply List.filter_eq_self.mpr
        intro item hitem
        obtain ⟨q, -, rfl⟩ := List.mem_map.mp hitem
        simpa using (buildItem_plain q).2.1
      rw [hitems, hfull, mapM_eq_ok, List.forall₂_map_left_iff, List.forall₂_same]
      exact fun q _ => parseItem_buildItem q
  · exact percentDecode_encode (by decide) (by decide) text

end RoundTrip

end FileService.Net

namespace FileService.Net
open FileService.Common FileService.Common.Delimited FileService.Domain
open FileService.Common.Crypto (octets)
open FileService.Transfer (decimalNat isDigitOctet)

def toLowerAscii (text : Bytes) : Bytes :=
  text.map fun c => if 65 ≤ c && c ≤ 90 then c + 32 else c

/-- `Url`; `port` is 0 without an explicit port. -/
structure Url where
  scheme : Bytes
  userinfo : Bytes := []
  host : Bytes
  port : Nat := 0
  hasPort : Bool := false
  path : Bytes
  query : Bytes := []
  fragment : Bytes := []
  hasFragment : Bool := false
deriving DecidableEq, Repr

/-! ## Rendering -/

def bracketIfIpv6 (host : Bytes) : Bytes :=
  if 58 ∉ host then host
  else if host.head? = some 91 then host
  else 91 :: host ++ [93]

def portText : Option Nat → Bytes
  | some p => 58 :: decimalNat p
  | none => []

/-- The host, and the port where there is one. -/
def hostWithPort (host : Bytes) (port : Option Nat) : Bytes := bracketIfIpv6 host ++ portText port

namespace Url

def authority (u : Url) : Bytes :=
  (if u.userinfo = [] then [] else u.userinfo ++ [64]) ++
    hostWithPort u.host (if u.hasPort then some u.port else none)

def pathAndQuery (u : Url) : Bytes :=
  (if u.path = [] then [47] else u.path) ++ (if u.query = [] then [] else 63 :: u.query)

/-- `ToString` -/
def render (u : Url) (withFragment : Bool) : Bytes :=
  u.scheme ++ octets "://" ++ u.authority ++ u.pathAndQuery ++
    (if withFragment && u.hasFragment then 35 :: u.fragment else [])

end Url

/-! ## Parsing -/

/-- The loop of `ParsePort`. -/
def portFrom (value : Nat) : Bytes → Option Nat
  | [] => some value
  | c :: rest =>
    if isDigitOctet c then
      if 65535 < value * 10 + (c.toNat - 48) then none
      else portFrom (value * 10 + (c.toNat - 48)) rest
    else none

/-- `ParsePort`; there is no port 0. -/
def parsePort (text : Bytes) : Option Nat :=
  if text = [] then none
  else
    match portFrom 0 text with
    | some value => if value = 0 then none else some value
    | none => none

def portError (text : Bytes) : Error := err .invalidArgument ("端口非法：'" ++ shown text ++ "'")

/-- `host[:port]`, with the host in brackets or not. -/
def parseHostPort (authority : Bytes) : Result (Bytes × Option Nat) :=
  if authority.head? = some 91 then
    match cut? 93 authority.tail with
    | none => .error (err .invalidArgument ("IPv6 地址缺少 ']'：'" ++ shown authority ++ "'"))
    | some (inside, tail) =>
      match tail with
      | [] => .ok (toLowerAscii inside, none)
      | c :: port =>
        if c ≠ 58 then
          .error (err .invalidArgument ("IPv6 地址后的字符非法：'" ++ shown tail ++ "'"))
        else
          match parsePort port with
          | some p => .ok (toLowerAscii inside, some p)
          | none => .error (portError port)
  else
    match cutLast? 58 authority with
    | none => .ok (toLowerAscii authority, none)
    | some (host, port) =>
      match parsePort port with
      | some p => .ok (toLowerAscii host, some p)
      | none => .error (portError port)

/-- The user information, the host and the port. -/
def parseAuthority (authority : Bytes) : Result (Bytes × Bytes × Option Nat) :=
  match cutLast? 64 authority with
  | some (userinfo, rest) => (parseHostPort rest).map fun p => (userinfo, p)
  | none => (parseHostPort authority).map fun p => ([], p)

/-- What stands before the first `://`, and what stands behind it. -/
def cutScheme : Bytes → Option (Bytes × Bytes)
  | [] => none
  | c :: rest =>
    if c = 58 ∧ rest.take 2 = [47, 47] then some ([], rest.drop 2)
    else (cutScheme rest).map fun p => (c :: p.1, p.2)

/-- The parts of the text behind the scheme: authority, path, query and fragment. -/
def cutParts (rest : Bytes) : Bytes × Bytes × Bytes × Option Bytes :=
  let hash := cutOff 35 rest
  let mark := cutOff 63 hash.1
  let slash := cutOff 47 mark.1
  (slash.1, 47 :: slash.2.getD [], mark.2.getD [], hash.2)

/-- No blank and no control character may be in a host. -/
def isHostOctet (c : UInt8) : Bool := 32 < c && c != 127

def parseUrl (text : Bytes) : Result Url :=
  match cutScheme text with
  | none => .error (err .invalidArgument ("URL 缺少 scheme：'" ++ shown text ++ "'"))
  | some (schemeText, rest) =>
    let scheme := toLowerAscii schemeText
    if scheme ≠ octets "http" ∧ scheme ≠ octets "https" then
      .error (err .invalidArgument ("不支持的 scheme：'" ++ shown scheme ++ "'"))
    else
      let (authority, path, query, fragment) := cutParts rest
      if authority = [] then
        .error (err .invalidArgument ("URL 缺少 host：'" ++ shown text ++ "'"))
      else
        match parseAuthority authority with
        | .error e => .error e
        | .ok (userinfo, host, port) =>
          if host = [] then
            .error (err .invalidArgument ("URL 缺少 host：'" ++ shown text ++ "'"))
          else if host.all isHostOctet = false then
            .error (err .invalidArgument ("host 含空白/控制字符：'" ++ shown host ++ "'"))
          else
            .ok
              { scheme, userinfo, host, path, query
                port := port.getD 0
                hasPort := port.isSome
                fragment := fragment.getD []
                hasFragment := fragment.isSome }

end FileService.Net
