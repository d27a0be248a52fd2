import FileService.Net.Url
import FileService.Transfer.Issued

/-!
# The normal form of a URL

An accepted URL is put together again from its parts. The parts are found again
in the new text, and it names the same authority and the same target, unless a
bracket stands inside the host or the query is there and empty.
-/
namespace FileService.Net
open FileService.Common FileService.Common.Delimited FileService.Domain
open FileService.Common.Crypto (octets)
open FileService.Transfer (decimalNat isDigitOctet isDigitOctet_of_mem decimalNat_ne_nil
  decimalValue decimalValue_decimalNat)

/-! ## Small letters -/

section Lower
variable {text : Bytes}

/-- Only letters change, and they become small letters. -/
theorem lower_eq_iff {c d : UInt8} (hd : d < 65 ∨ 90 < d ∧ d < 97 ∨ 122 < d) :
    (if 65 ≤ c && c ≤ 90 then c + 32 else c) = d ↔ c = d := by
  simp only [UInt8.lt_iff_toNat_lt] at hd
  split_ifs with hcap
  · simp only [Bool.and_eq_true, decide_eq_true_eq, UInt8.le_iff_toNat_le] at hcap
    rw [← UInt8.toNat_inj, ← UInt8.toNat_inj, UInt8.toNat_add]
    simp at hd hcap ⊢
    omega
  · rfl

/-- What is no letter is in the small text exactly if it is in the text. -/
theorem mem_toLowerAscii {d : UInt8} (hd : d < 65 ∨ 90 < d ∧ d < 97 ∨ 122 < d) :
    d ∈ toLowerAscii text ↔ d ∈ text := by
  simp only [toLowerAscii, List.mem_map, lower_eq_iff hd, exists_eq_right]

theorem head?_toLowerAscii {d : UInt8} (hd : d < 65 ∨ 90 < d ∧ d < 97 ∨ 122 < d) :
    (toLowerAscii text).head? = some d ↔ text.head? = some d := by
  simp only [toLowerAscii, List.head?_map, Option.map_eq_some_iff, lower_eq_iff hd,
    exists_eq_right]

@[simp] theorem toLowerAscii_idem : toLowerAscii (toLowerAscii text) = toLowerAscii text := by
  simp only [toLowerAscii, List.map_map, List.map_inj_left]
  intro c _
  simp only [Function.comp_apply]
  split_ifs with hsmall hagain
  · simp only [Bool.and_eq_true, decide_eq_true_eq, UInt8.le_iff_toNat_le, UInt8.toNat_add]
      at hsmall hagain
    simp at hsmall hagain
    omega
  all_goals rfl

end Lower

/-! ## Ports -/

section Ports
variable {text : Bytes} {value p : Nat}

/-- The number that digits give behind the number read so far. -/
def valueFrom (value : Nat) (digits : Bytes) : Nat :=
  digits.foldl (fun v c => v * 10 + (c.toNat - 48)) value

theorem le_valueFrom : value ≤ valueFrom value text := by
  induction text generalizing value with
  | nil => exact le_rfl
  | cons c text ih =>
    have hnext : value ≤ value * 10 + (c.toNat - 48) := by omega
    exact hnext.trans ih

theorem portFrom_valueFrom (hdigits : ∀ c ∈ text, isDigitOctet c = true)
    (hsmall : valueFrom value text ≤ 65535) : portFrom value text = some (valueFrom value text) := by
  induction text generalizing value with
  | nil => rfl
  | cons c text ih =>
    have hrest : valueFrom (value * 10 + (c.toNat - 48)) text ≤ 65535 := hsmall
    have hfits : ¬65535 < value * 10 + (c.toNat - 48) := not_lt.mpr (le_valueFrom.trans hrest)
    rw [portFrom, if_pos (hdigits c (by simp)), if_neg hfits]
    exact ih (fun d hd => hdigits d (by simp [hd])) hrest

theorem portFrom_le (h : portFrom value text = some p) (hvalue : value ≤ 65535) : p ≤ 65535 := by
  induction text generalizing value with
  | nil => exact Option.some.inj h ▸ hvalue
  | cons c text ih =>
    rw [portFrom] at h
    split_ifs at h with hdigit hfits
    exact ih h (not_lt.mp hfits)

theorem range_of_parsePort (h : parsePort text = some p) : 0 < p ∧ p ≤ 65535 := by
  unfold parsePort at h
  split_ifs at h
  split at h
  · rename_i value hvalue
    split_ifs at h with hzero
    cases h
    exact ⟨Nat.pos_of_ne_zero hzero, portFrom_le hvalue (by decide)⟩
  · cases h

theorem parsePort_decimalNat (h : 0 < p ∧ p ≤ 65535) : parsePort (decimalNat p) = some p := by
  obtain ⟨hpos, hle⟩ := h
  have hvalue : valueFrom 0 (decimalNat p) = p := decimalValue_decimalNat
  have hfrom : portFrom 0 (decimalNat p) = some p := by
    rw [portFrom_valueFrom (fun c hc => isDigitOctet_of_mem hc) (hvalue.symm ▸ hle), hvalue]
  rw [parsePort, if_neg decimalNat_ne_nil, hfrom]
  exact if_neg hpos.ne'

/-- A digit is none of the separators. -/
theorem notMem_decimalNat {d : UInt8} (hd : isDigitOctet d = false) : d ∉ decimalNat p := by
  intro h
  rw [isDigitOctet_of_mem h] at hd
  cases hd

theorem parsePort_of_mem {d : UInt8} (hd : isDigitOctet d = false) (h : d ∈ text) :
    parsePort text = none := by
  have hfrom : ∀ value, portFrom value text = none := by
    induction text with
    | nil => cases h
    | cons c text ih =>
      intro value
      rw [portFrom]
      rcases List.mem_cons.mp h with rfl | hrest
      · rw [if_neg (by simp [hd])]
      · split_ifs
        · rfl
        · exact ih hrest _
        · rfl
  unfold parsePort
  split_ifs
  · rfl
  · rw [hfrom]

end Ports

/-! ## Hosts -/

section Hosts
variable {text host inside tail : Bytes} {port : Option Nat}

theorem parseHostPort_closed (h : 93 ∉ inside) : parseHostPort (91 :: inside ++ 93 :: tail) =
    (match tail with
    | [] => .ok (toLowerAscii inside, none)
    | c :: port =>
      if c ≠ 58 then
        .error (err .invalidArgument ("IPv6 地址后的字符非法：'" ++ shown tail ++ "'"))
      else
        match parsePort port with
        | some p => .ok (toLowerAscii inside, some p)
        | none => .error (portError port)) := by
  have hopen : (91 :: inside ++ 93 :: tail).head? = some 91 := rfl
  rw [parseHostPort, if_pos hopen, List.cons_append, List.tail_cons, cut?_append h]
  rfl

theorem parseHostPort_unclosed (hopen : text.head? = some 91) (hclose : 93 ∉ text)
    (parsed : Bytes × Option Nat) : parseHostPort text ≠ .ok parsed := by
  have htail : 93 ∉ text.tail := fun h => hclose (List.mem_of_mem_tail h)
  rw [parseHostPort, if_pos hopen, cut?_of_notMem htail]
  simp

/-- No port holds a bracket. -/
theorem parseHostPort_twice_closed (hinside : 93 ∉ inside) (htail : 93 ∈ tail)
    (parsed : Bytes × Option Nat) : parseHostPort (91 :: inside ++ 93 :: tail) ≠ .ok parsed := by
  rw [parseHostPort_closed hinside]
  cases tail with
  | nil => cases htail
  | cons c port =>
    dsimp only
    split_ifs with hcolon
    · simp
    · have hport : 93 ∈ port := by
        refine (List.mem_cons.mp htail).resolve_left fun h => hcolon ?_
        rw [← h]
        decide
      rw [parsePort_of_mem (by decide) hport]
      simp

/-- A bracket that the rendering does not set itself apart from. -/
def StrayBracket (host : Bytes) : Prop :=
  (host.head? = some 91 ∧ 93 ∉ host) ∨ (host.head? ≠ some 91 ∧ 58 ∈ host ∧ 93 ∈ host)

theorem notMem_portText {d : UInt8} (hd : isDigitOctet d = false) (hcolon : d ≠ 58) :
    d ∉ portText port := by
  cases port with
  | none => simp [portText]
  | some p => simpa [portText, hcolon] using notMem_decimalNat hd

theorem head?_append_portText (h : host.head? ≠ some 91) :
    (host ++ portText port).head? ≠ some 91 := by
  cases host with
  | nil => cases port <;> simp [portText]
  | cons c host => simpa using h

/-- A host without stray brackets is read back as it was. -/
theorem parseHostPort_hostWithPort (hlower : toLowerAscii host = host)
    (hport : ∀ p, port = some p → 0 < p ∧ p ≤ 65535) (hopen : host.head? ≠ some 91)
    (hclose : 58 ∈ host → 93 ∉ host) : parseHostPort (hostWithPort host port) = .ok (host, port) := by
  by_cases hcolon : 58 ∈ host
  · have hbracket : bracketIfIpv6 host = 91 :: host ++ [93] := by
      rw [bracketIfIpv6, if_neg (not_not.mpr hcolon), if_neg hopen]
    rw [hostWithPort, hbracket, List.append_assoc, List.singleton_append,
      parseHostPort_closed (hclose hcolon)]
    cases port with
    | none =>
      rw [portText]
      dsimp only
      rw [hlower]
    | some p =>
      rw [portText]
      dsimp only
      rw [if_neg (by simp), parsePort_decimalNat (hport p rfl), hlower]
  · rw [hostWithPort, bracketIfIpv6, if_pos hcolon, parseHostPort,
      if_neg (head?_append_portText hopen)]
    cases port with
    | none =>
      rw [portText, List.append_nil, cutLast?_of_notMem hcolon]
      dsimp only
      rw [hlower]
    | some p =>
      rw [portText, cutLast?_append (notMem_decimalNat (by decide))]
      dsimp only
      rw [parsePort_decimalNat (hport p rfl), hlower]

/-- With a stray bracket the new text is no host at all. -/
theorem parseHostPort_of_stray (h : StrayBracket host) (parsed : Bytes × Option Nat) :
    parseHostPort (hostWithPort host port) ≠ .ok parsed := by
  rcases h with ⟨hopen, hclose⟩ | ⟨hopen, hcolon, hclose⟩
  · have hbracket : bracketIfIpv6 host = host := by
      unfold bracketIfIpv6
      rw [if_pos hopen, ite_self]
    rw [hostWithPort, hbracket]
    refine parseHostPort_unclosed ?_ ?_ parsed
    · cases host with
      | nil => cases hopen
      | cons c host => simpa using hopen
    · have hport : 93 ∉ portText port := notMem_portText (by decide) (by decide)
      simpa [hclose] using hport
  · have hbracket : bracketIfIpv6 host = 91 :: host ++ [93] := by
      rw [bracketIfIpv6, if_neg (not_not.mpr hcolon), if_neg hopen]
    have hsplit : hostWithPort host port =
        91 :: (cut 93 host).1 ++ 93 :: ((cut 93 host).2 ++ 93 :: portText port) := by
      rw [hostWithPort, hbracket]
      conv_lhs => rw [← append_cut hclose]
      simp
    rw [hsplit]
    exact parseHostPort_twice_closed (notMem_cut host) (by simp) parsed

/-- The three ways to write an accepted host. -/
theorem parseHostPort_cases (h : parseHostPort text = .ok (host, port)) :
    (∃ inside tail, 93 ∉ inside ∧ text = 91 :: inside ++ 93 :: tail ∧ host = toLowerAscii inside ∧
      ∀ p, port = some p → 0 < p ∧ p ≤ 65535) ∨
    (text.head? ≠ some 91 ∧ 58 ∉ text ∧ host = toLowerAscii text ∧ port = none) ∨
    (text.head? ≠ some 91 ∧ ∃ before behind, cutLast? 58 text = some (before, behind) ∧
      host = toLowerAscii before ∧ ∀ p, port = some p → 0 < p ∧ p ≤ 65535) := by
  by_cases hopen : text.head? = some 91
  · left
    by_cases hclose : 93 ∈ text
    · obtain ⟨body, rfl⟩ : ∃ body, text = 91 :: body := by
        cases text with
        | nil => cases hopen
        | cons c body => exact ⟨body, by rw [Option.some.inj hopen]⟩
      have hbody : 93 ∈ body := by simpa using hclose
      obtain ⟨inside, tail, hinside, rfl⟩ : ∃ inside tail, 93 ∉ inside ∧
          body = inside ++ 93 :: tail :=
        ⟨(cut 93 body).1, (cut 93 body).2, notMem_cut body, (append_cut hbody).symm⟩
      rw [← List.cons_append, parseHostPort_closed hinside] at h
      refine ⟨inside, tail, hinside, rfl, ?_⟩
      cases tail with
      | nil =>
        cases h
        exact ⟨rfl, fun p hp => by cases hp⟩
      | cons c digits =>
        dsimp only at h
        split_ifs at h
        split at h
        · rename_i p hp
          cases h
          exact ⟨rfl, fun q hq => Option.some.inj hq ▸ range_of_parsePort hp⟩
        · cases h
    · exact absurd h (parseHostPort_unclosed hopen hclose _)
  · right
    rw [parseHostPort, if_neg hopen] at h
    split at h
    · rename_i hcolon
      cases h
      exact .inl ⟨hopen, cutLast?_eq_none.mp hcolon, rfl, rfl⟩
    · rename_i before digits hcolon
      split at h
      · rename_i p hp
        cases h
        exact .inr ⟨hopen, before, digits, hcolon, rfl,
          fun q hq => Option.some.inj hq ▸ range_of_parsePort hp⟩
      · cases h

/-- A host that is written with a second bracket at its front, or without brackets but
with a colon and a closing bracket before the port. -/
def OddHost (text : Bytes) : Prop :=
  text.take 2 = [91, 91] ∨
    (text.head? ≠ some 91 ∧ ∃ before behind, cutLast? 58 text = some (before, behind) ∧
      58 ∈ before ∧ 93 ∈ before)

theorem head?_of_take (h : text.take 2 = [91, 91]) : text.head? = some 91 := by
  cases text with
  | nil => cases h
  | cons c text => exact congrArg List.head? h

/-- The stray brackets are those of an odd host. -/
theorem strayBracket_iff (h : parseHostPort text = .ok (host, port)) :
    StrayBracket host ↔ OddHost text := by
  rcases parseHostPort_cases h with ⟨inside, tail, hinside, rfl, rfl, -⟩ |
    ⟨hopen, hcolon, rfl, -⟩ | ⟨hopen, before, behind, hcut, rfl, -⟩
  · have hhead : (toLowerAscii inside).head? = some 91 ↔ inside.head? = some 91 :=
      head?_toLowerAscii (by decide)
    have hclose : 93 ∈ toLowerAscii inside ↔ 93 ∈ inside := mem_toLowerAscii (by decide)
    simp only [StrayBracket, OddHost, hhead, hclose, hinside, not_false_eq_true, and_true,
      and_false, or_false, List.cons_append, List.head?_cons, ne_eq, not_true_eq_false, false_and]
    cases inside <;> simp
  · have hhead : (toLowerAscii text).head? = some 91 ↔ text.head? = some 91 :=
      head?_toLowerAscii (by decide)
    have hmem : 58 ∈ toLowerAscii text ↔ 58 ∈ text := mem_toLowerAscii (by decide)
    have hodd : text.take 2 ≠ [91, 91] := fun htake => hopen (head?_of_take htake)
    simp [StrayBracket, OddHost, hhead, hmem, hopen, hcolon, hodd, cutLast?_of_notMem hcolon]
  · have hhead : (toLowerAscii before).head? = some 91 ↔ before.head? = some 91 :=
      head?_toLowerAscii (by decide)
    have hmem : 58 ∈ toLowerAscii before ↔ 58 ∈ before := mem_toLowerAscii (by decide)
    have hclose : 93 ∈ toLowerAscii before ↔ 93 ∈ before := mem_toLowerAscii (by decide)
    have hodd : text.take 2 ≠ [91, 91] := fun htake => hopen (head?_of_take htake)
    have hbefore : before.head? ≠ some 91 := by
      rintro heq
      rw [(cutLast?_eq_some.mp hcut).2] at hopen
      cases before with
      | nil => cases heq
      | cons c before => exact hopen (by simpa using heq)
    simp [StrayBracket, OddHost, hhead, hmem, hclose, hopen, hodd, hcut, hbefore]

end Hosts

/-! ## Authorities -/

section Authorities
variable {text userinfo host : Bytes} {port : Option Nat}

/-- What stands behind the user information. -/
def hostText (authority : Bytes) : Bytes :=
  match cutLast? 64 authority with
  | some (_, rest) => rest
  | none => authority

theorem eq_ok_of_map {α β : Type} {f : α → β} {r : Result α} {b : β} (h : r.map f = .ok b) :
    ∃ a, r = .ok a ∧ f a = b := by
  cases r with
  | error e => cases h
  | ok a => exact ⟨a, rfl, Except.ok.inj h⟩

theorem parseAuthority_cases (h : parseAuthority text = .ok (userinfo, host, port)) :
    parseHostPort (hostText text) = .ok (host, port) ∧ 64 ∉ hostText text ∧
      (∀ c ∈ userinfo, c ∈ text) ∧ ∀ c ∈ hostText text, c ∈ text := by
  unfold parseAuthority at h
  unfold hostText
  rcases hcut : cutLast? 64 text with _ | ⟨before, rest⟩
  · rw [hcut] at h
    dsimp only at h ⊢
    obtain ⟨parsed, hparsed, heq⟩ := eq_ok_of_map h
    cases heq
    exact ⟨hparsed, cutLast?_eq_none.mp hcut, by simp, by simp⟩
  · rw [hcut] at h
    dsimp only at h ⊢
    obtain ⟨hrest, rfl⟩ := cutLast?_eq_some.mp hcut
    obtain ⟨parsed, hparsed, heq⟩ := eq_ok_of_map h
    cases heq
    exact ⟨hparsed, hrest, by simp +contextual, by simp +contextual⟩

/-- The octets of a host stand in the text it was read from, but for the letters. -/
theorem mem_of_parseHostPort {c : UInt8} (hc : c < 65 ∨ 90 < c ∧ c < 97 ∨ 122 < c)
    (h : parseHostPort text = .ok (host, port)) (hmem : c ∈ host) : c ∈ text := by
  rcases parseHostPort_cases h with ⟨inside, tail, -, rfl, rfl, -⟩ | ⟨-, -, rfl, -⟩ |
    ⟨-, before, behind, hcut, rfl, -⟩
  · simp [(mem_toLowerAscii hc).mp hmem]
  · exact (mem_toLowerAscii hc).mp hmem
  · rw [(cutLast?_eq_some.mp hcut).2]
    simp [(mem_toLowerAscii hc).mp hmem]

theorem lower_of_parseHostPort (h : parseHostPort text = .ok (host, port)) :
    toLowerAscii host = host := by
  rcases parseHostPort_cases h with ⟨inside, tail, -, rfl, rfl, -⟩ | ⟨-, -, rfl, -⟩ |
    ⟨-, before, behind, -, rfl, -⟩ <;> exact toLowerAscii_idem

theorem port_of_parseHostPort (h : parseHostPort text = .ok (host, port)) :
    ∀ p, port = some p → 0 < p ∧ p ≤ 65535 := by
  rcases parseHostPort_cases h with ⟨-, -, -, -, -, hport⟩ | ⟨-, -, -, rfl⟩ |
    ⟨-, -, -, -, -, hport⟩
  · exact hport
  · simp
  · exact hport

/-- A host that starts with a bracket has been set in brackets. -/
theorem closed_of_open (h : parseHostPort text = .ok (host, port)) (hopen : host.head? = some 91) :
    93 ∉ host := by
  rcases parseHostPort_cases h with ⟨inside, tail, hinside, -, rfl, -⟩ |
    ⟨hhead, -, rfl, -⟩ | ⟨hhead, before, after, hcut, rfl, -⟩
  · exact fun h => hinside ((mem_toLowerAscii (by decide)).mp h)
  · exact absurd ((head?_toLowerAscii (by decide)).mp hopen) hhead
  · rw [(cutLast?_eq_some.mp hcut).2] at hhead
    have hbefore := (head?_toLowerAscii (by decide)).mp hopen
    cases before with
    | nil => cases hbefore
    | cons c before => exact absurd hbefore hhead

theorem mem_hostWithPort {c : UInt8} (h : c ∈ hostWithPort host port) :
    c ∈ host ∨ c = 91 ∨ c = 93 ∨ c = 58 ∨ isDigitOctet c = true := by
  unfold hostWithPort bracketIfIpv6 at h
  have hport : c ∈ portText port → c = 58 ∨ isDigitOctet c = true := by
    cases port with
    | none => simp [portText]
    | some p =>
      rw [portText, List.mem_cons]
      exact Or.imp_right isDigitOctet_of_mem
  rcases List.mem_append.mp h with hhost | hbehind
  · split_ifs at hhost
    · exact .inl hhost
    · simp only [List.cons_append, List.mem_cons, List.mem_append, List.not_mem_nil, or_false]
        at hhost
      tauto
    · exact .inl hhost
  · exact .inr (.inr (.inr (hport hbehind)))

/-- The user information is cut off again where it was put on. -/
theorem parseAuthority_append (hhost : 64 ∉ host) :
    parseAuthority ((if userinfo = [] then [] else userinfo ++ [64]) ++ hostWithPort host port) =
      (parseHostPort (hostWithPort host port)).map fun p => (userinfo, p) := by
  have hat : 64 ∉ hostWithPort host port := fun h => by
    rcases mem_hostWithPort h with h | h | h | h | h
    · exact hhost h
    all_goals exact absurd h (by decide)
  by_cases huser : userinfo = []
  · rw [if_pos huser, List.nil_append, parseAuthority, cutLast?_of_notMem hat, huser]
  · rw [if_neg huser, List.append_assoc, List.singleton_append, parseAuthority,
      cutLast?_append hat]

end Authorities

/-! ## The parts of a URL -/

section Parts
variable {text schemeText rest authority : Bytes} {path query fragment : Option Bytes} {u : Url}

def endsAuthority (c : UInt8) : Bool := c == 47 || c == 63 || c == 35

/-- What stands behind the scheme. -/
def restText (text : Bytes) : Bytes := ((cutScheme text).map Prod.snd).getD []

/-- The authority as it is written. -/
def authorityText (text : Bytes) : Bytes := (restText text).takeWhile fun c => !endsAuthority c

/-- The path and the query as they are written. -/
def targetText (text : Bytes) : Bytes :=
  ((restText text).dropWhile fun c => !endsAuthority c).takeWhile fun c => c != 35

/-- The request target of a URL: the path and the query as they are written, from the root on. -/
def target (text : Bytes) : Bytes :=
  if (targetText text).head? = some 47 then targetText text else 47 :: targetText text

/-- A query that is there and empty. -/
def BareQuery (target : Bytes) : Prop := ∃ path, 63 ∉ path ∧ target = path ++ [63]

/-- What the text behind a scheme consists of. -/
structure PartTexts (rest authority : Bytes) (path query fragment : Option Bytes) : Prop where
  whole : rest = authority ++ behind 47 path ++ behind 63 query ++ behind 35 fragment
  slash : 47 ∉ authority
  mark : 63 ∉ authority ++ behind 47 path
  hash : 35 ∉ authority ++ behind 47 path ++ behind 63 query

theorem cutParts_eq (h : PartTexts rest authority path query fragment) :
    cutParts rest = (authority, 47 :: path.getD [], query.getD [], fragment) := by
  simp only [cutParts, h.whole, cutOff_append h.hash, cutOff_append h.mark, cutOff_append h.slash]

theorem exists_partTexts (rest : Bytes) :
    ∃ authority path query fragment, PartTexts rest authority path query fragment := by
  have hwhole := append_cutOff 35 rest
  have hmark := append_cutOff 63 (cutOff 35 rest).1
  have hslash := append_cutOff 47 (cutOff 63 (cutOff 35 rest).1).1
  refine ⟨(cutOff 47 (cutOff 63 (cutOff 35 rest).1).1).1,
    (cutOff 47 (cutOff 63 (cutOff 35 rest).1).1).2, (cutOff 63 (cutOff 35 rest).1).2,
    (cutOff 35 rest).2, ?_, notMem_cutOff _, ?_, ?_⟩
  · rw [hslash, hmark, hwhole]
  · rw [hslash]
    exact notMem_cutOff _
  · rw [hslash, hmark]
    exact notMem_cutOff _

theorem PartTexts.endsAuthority_eq_false (h : PartTexts rest authority path query fragment) :
    ∀ c ∈ authority, endsAuthority c = false := by
  intro c hc
  have hslash : c ≠ 47 := fun heq => h.slash (heq ▸ hc)
  have hmark : c ≠ 63 := fun heq => h.mark (heq ▸ List.mem_append_left _ hc)
  have hhash : c ≠ 35 := fun heq =>
    h.hash (heq ▸ List.mem_append_left _ (List.mem_append_left _ hc))
  simp [endsAuthority, hslash, hmark, hhash]

/-- The first separator behind the authority ends it. -/
theorem PartTexts.split (h : PartTexts rest authority path query fragment) :
    (rest.takeWhile fun c => !endsAuthority c) = authority ∧
      (rest.dropWhile fun c => !endsAuthority c) =
        behind 47 path ++ behind 63 query ++ behind 35 fragment := by
  have hall : ∀ c ∈ authority, (!endsAuthority c) = true := fun c hc => by
    rw [h.endsAuthority_eq_false c hc]
    rfl
  have hend : ((behind 47 path ++ behind 63 query ++ behind 35 fragment).takeWhile
      fun c => !endsAuthority c) = [] := by
    cases path <;> cases query <;> cases fragment <;> simp [behind, endsAuthority]
  have hwhole : rest = authority ++ (behind 47 path ++ behind 63 query ++ behind 35 fragment) := by
    simpa only [List.append_assoc] using h.whole
  have hdrop := List.takeWhile_append_dropWhile (p := fun c => !endsAuthority c) (l := rest)
  have htake : (rest.takeWhile fun c => !endsAuthority c) = authority := by
    rw [hwhole, List.takeWhile_append_of_pos hall, hend, List.append_nil]
  refine ⟨htake, ?_⟩
  rw [htake] at hdrop
  exact List.append_cancel_left (hdrop.trans hwhole)

theorem authorityText_eq (hscheme : cutScheme text = some (schemeText, rest))
    (hparts : PartTexts rest authority path query fragment) : authorityText text = authority := by
  rw [authorityText, restText, hscheme]
  exact hparts.split.1

theorem targetText_eq (hscheme : cutScheme text = some (schemeText, rest))
    (hparts : PartTexts rest authority path query fragment) :
    targetText text = behind 47 path ++ behind 63 query := by
  have hhash : 35 ∉ behind 47 path ++ behind 63 query := fun h => hparts.hash (by
    rw [List.append_assoc]
    exact List.mem_append_right _ h)
  have hall : ∀ c ∈ behind 47 path ++ behind 63 query, (c != 35) = true := fun c hc => by
    rw [bne_iff_ne]
    rintro rfl
    exact hhash hc
  rw [targetText, restText, hscheme]
  refine (congrArg _ hparts.split.2).trans ?_
  rw [List.takeWhile_append_of_pos hall]
  cases fragment <;> simp [behind]

theorem target_eq (hscheme : cutScheme text = some (schemeText, rest))
    (hparts : PartTexts rest authority path query fragment) :
    target text = 47 :: path.getD [] ++ behind 63 query := by
  rw [target, targetText_eq hscheme hparts]
  cases path <;> cases query <;> simp [behind]

theorem bareQuery_iff (hscheme : cutScheme text = some (schemeText, rest))
    (hparts : PartTexts rest authority path query fragment) :
    BareQuery (targetText text) ↔ query = some [] := by
  have hmark : 63 ∉ behind 47 path := fun h => hparts.mark (List.mem_append_right _ h)
  rw [targetText_eq hscheme hparts]
  constructor
  · rintro ⟨before, hbefore, heq⟩
    cases query with
    | none =>
      rw [behind, List.append_nil] at heq
      exact absurd (heq ▸ by simp) hmark
    | some q => exact congrArg some (append_inj_of_notMem hmark hbefore heq).2
  · rintro rfl
    exact ⟨behind 47 path, hmark, rfl⟩

/-- The URL of parts that were read. -/
def urlOf (scheme userinfo host : Bytes) (port : Option Nat) (path query fragment : Option Bytes) :
    Url where
  scheme := scheme
  userinfo := userinfo
  host := host
  port := port.getD 0
  hasPort := port.isSome
  path := 47 :: path.getD []
  query := query.getD []
  fragment := fragment.getD []
  hasFragment := fragment.isSome

theorem parseUrl_eq_ok (hscheme : cutScheme text = some (schemeText, rest))
    (hparts : PartTexts rest authority path query fragment) :
    parseUrl text = .ok u ↔
      (toLowerAscii schemeText = octets "http" ∨ toLowerAscii schemeText = octets "https") ∧
        ∃ userinfo host port, parseAuthority authority = .ok (userinfo, host, port) ∧
          host ≠ [] ∧ host.all isHostOctet = true ∧
          u = urlOf (toLowerAscii schemeText) userinfo host port path query fragment := by
  have hnone : parseAuthority [] = .ok ([], [], none) := by decide
  rw [parseUrl, hscheme]
  dsimp only
  rw [cutParts_eq hparts]
  dsimp only
  split_ifs with hbad hempty
  · simp [not_or.mpr hbad]
  · rw [hempty, hnone]
    simp +contextual
  · simp only [ne_eq, not_and_or, not_not] at hbad
    cases hauthority : parseAuthority authority with
    | error e => simp [hbad]
    | ok parts =>
      obtain ⟨userinfo, host, port⟩ := parts
      dsimp only
      split_ifs with hhost hoctets
      · simp +contextual [hhost]
      · constructor
        · intro h
          cases h
        · rintro ⟨-, _, _, _, heq, -, hall, -⟩
          cases heq
          rw [hall] at hoctets
          cases hoctets
      · constructor
        · intro h
          exact ⟨hbad, userinfo, host, port, rfl, hhost, by simpa using hoctets,
            (Except.ok.inj h).symm⟩
        · rintro ⟨-, _, _, _, heq, -, -, rfl⟩
          cases heq
          rfl

/-- No scheme that is accepted holds a colon. -/
theorem cutScheme_append (hscheme : schemeText = octets "http" ∨ schemeText = octets "https")
    (rest : Bytes) : cutScheme (schemeText ++ octets "://" ++ rest) = some (schemeText, rest) := by
  rcases hscheme with rfl | rfl <;> rfl

theorem lower_scheme (hscheme : schemeText = octets "http" ∨ schemeText = octets "https") :
    toLowerAscii schemeText = schemeText := by
  rcases hscheme with rfl | rfl <;> decide

/-! ## Rendering again -/

variable {scheme userinfo host : Bytes} {port : Option Nat}

/-- The query as it is written again. -/
def keptQuery (query : Option Bytes) : Option Bytes := if query = some [] then none else query

theorem getD_keptQuery : (keptQuery query).getD [] = query.getD [] := by
  unfold keptQuery
  split_ifs with h
  · rw [h]
    rfl
  · rfl

theorem pathAndQuery_urlOf : (urlOf scheme userinfo host port path query fragment).pathAndQuery =
    47 :: path.getD [] ++ behind 63 (keptQuery query) := by
  cases query with
  | none => simp [Url.pathAndQuery, urlOf, keptQuery, behind]
  | some q => cases q <;> simp [Url.pathAndQuery, urlOf, keptQuery, behind]

theorem authority_urlOf : (urlOf scheme userinfo host port path query fragment).authority =
    (if userinfo = [] then [] else userinfo ++ [64]) ++ hostWithPort host port := by
  cases port <;> rfl

theorem render_urlOf : (urlOf scheme userinfo host port path query fragment).render true =
    scheme ++ octets "://" ++
      ((urlOf scheme userinfo host port path query fragment).authority ++
        behind 47 (some (path.getD [])) ++ behind 63 (keptQuery query) ++ behind 35 fragment) := by
  have hfragment : (if (true && fragment.isSome) then 35 :: fragment.getD [] else []) =
      behind 35 fragment := by
    cases fragment <;> rfl
  rw [Url.render, pathAndQuery_urlOf]
  simp only [List.append_assoc, behind]
  congr 5

/-- A separator of the parts stands in no authority that is written again. -/
theorem notMem_authority {c : UInt8} (hparts : PartTexts rest authority path query fragment)
    (hauthority : parseAuthority authority = .ok (userinfo, host, port))
    (hc : endsAuthority c = true) :
    c ∉ (if userinfo = [] then [] else userinfo ++ [64]) ++ hostWithPort host port := by
  obtain ⟨hhost, -, huser, hmem⟩ := parseAuthority_cases hauthority
  have hnot : c ∉ authority := fun h => by
    rw [hparts.endsAuthority_eq_false c h] at hc
    cases hc
  have hrange : c = 47 ∨ c = 63 ∨ c = 35 := by
    simpa [endsAuthority, or_assoc] using hc
  have hletter : c < 65 ∨ 90 < c ∧ c < 97 ∨ 122 < c := by
    rcases hrange with rfl | rfl | rfl <;> decide
  have hsign : ¬(c = 64 ∨ c = 91 ∨ c = 93 ∨ c = 58 ∨ isDigitOctet c = true) := by
    rcases hrange with rfl | rfl | rfl <;> decide
  intro h
  rcases List.mem_append.mp h with h | h
  · split_ifs at h
    · cases h
    · rcases List.mem_append.mp h with h | h
      · exact hnot (huser c h)
      · exact hsign (.inl (List.mem_singleton.mp h))
  · rcases mem_hostWithPort h with h | h
    · exact hnot (hmem c (mem_of_parseHostPort hletter hhost h))
    · exact hsign (.inr h)

/-- The new text consists of the new authority and the parts as they were. -/
theorem PartTexts.again (scheme : Bytes) (hparts : PartTexts rest authority path query fragment)
    (hauthority : parseAuthority authority = .ok (userinfo, host, port)) :
    PartTexts ((urlOf scheme userinfo host port path query fragment).authority ++
        behind 47 (some (path.getD [])) ++ behind 63 (keptQuery query) ++ behind 35 fragment)
      (urlOf scheme userinfo host port path query fragment).authority
      (some (path.getD [])) (keptQuery query) fragment := by
  have hmark : 63 ∉ behind 47 path := fun h => hparts.mark (List.mem_append_right _ h)
  have hhash : 35 ∉ behind 47 path ++ behind 63 query := fun h => hparts.hash (by
    rw [List.append_assoc]
    exact List.mem_append_right _ h)
  have hpath : ∀ c ∈ behind 47 (some (path.getD [])), c = 47 ∨ c ∈ behind 47 path := by
    cases path <;> simp [behind]
  have hquery : ∀ c ∈ behind 63 (keptQuery query), c ∈ behind 63 query := by
    unfold keptQuery
    split_ifs <;> simp [behind]
  rw [authority_urlOf]
  refine ⟨rfl, notMem_authority hparts hauthority rfl, ?_, ?_⟩
  · intro h
    rcases List.mem_append.mp h with h | h
    · exact notMem_authority hparts hauthority rfl h
    · exact hmark ((hpath _ h).resolve_left (by decide))
  · intro h
    rw [List.append_assoc] at h
    rcases List.mem_append.mp h with h | h
    · exact notMem_authority hparts hauthority rfl h
    · refine hhash (List.mem_append.mpr ?_)
      rcases List.mem_append.mp h with h | h
      · exact .inl ((hpath _ h).resolve_left (by decide))
      · exact .inr (hquery _ h)

theorem urlOf_kept : urlOf scheme userinfo host port (some (path.getD [])) (keptQuery query) fragment =
    urlOf scheme userinfo host port path query fragment := by
  simp only [urlOf, getD_keptQuery, Option.getD_some]

/-- Rendering and reading again gives the same parts unless a bracket strays. -/
theorem parseAuthority_again (hauthority : parseAuthority authority = .ok (userinfo, host, port))
    (hstray : ¬StrayBracket host) :
    parseAuthority (urlOf scheme userinfo host port path query fragment).authority =
      .ok (userinfo, host, port) := by
  obtain ⟨hhost, hat, -, -⟩ := parseAuthority_cases hauthority
  have hat' : 64 ∉ host := fun h => hat (mem_of_parseHostPort (by decide) hhost h)
  have hopen : host.head? ≠ some 91 := fun h => hstray (.inl ⟨h, closed_of_open hhost h⟩)
  have hhost' : parseHostPort (hostWithPort host port) = .ok (host, port) :=
    parseHostPort_hostWithPort (lower_of_parseHostPort hhost) (port_of_parseHostPort hhost) hopen
      fun hcolon hclose => hstray (.inr ⟨hopen, hcolon, hclose⟩)
  rw [authority_urlOf, parseAuthority_append hat', hhost']
  rfl

/-! ## The normal form -/

/-- Rendering an accepted URL gives a text with the same parts, the same target and
the same authority. -/
structure Normal (text : Bytes) (u : Url) : Prop where
  stable : parseUrl (u.render true) = .ok u
  target : u.pathAndQuery = target text
  authority : parseAuthority u.authority = parseAuthority (authorityText text)

theorem normal_iff (h : parseUrl text = .ok u) :
    Normal text u ↔ ¬OddHost (hostText (authorityText text)) ∧ ¬BareQuery (targetText text) := by
  obtain ⟨⟨schemeText, rest⟩, hscheme⟩ : ∃ parts, cutScheme text = some parts := by
    cases hcut : cutScheme text with
    | none =>
      rw [parseUrl, hcut] at h
      cases h
    | some parts => exact ⟨parts, rfl⟩
  obtain ⟨authority, path, query, fragment, hparts⟩ := exists_partTexts rest
  obtain ⟨hlower, userinfo, host, port, hauthority, hhost, hoctets, rfl⟩ :=
    (parseUrl_eq_ok hscheme hparts).mp h
  have hagain := hparts.again (toLowerAscii schemeText) hauthority
  have hscheme' := cutScheme_append hlower
  rw [bareQuery_iff hscheme hparts, authorityText_eq hscheme hparts,
    ← strayBracket_iff (parseAuthority_cases hauthority).1]
  constructor
  · intro hnormal
    constructor
    · intro hstray
      have hread := hnormal.stable
      rw [render_urlOf, parseUrl_eq_ok (hscheme' _) hagain] at hread
      obtain ⟨-, userinfo', host', port', hread, -⟩ := hread
      have hat : 64 ∉ host := fun hmem => (parseAuthority_cases hauthority).2.1
        (mem_of_parseHostPort (by decide) (parseAuthority_cases hauthority).1 hmem)
      rw [authority_urlOf, parseAuthority_append hat] at hread
      obtain ⟨parsed, hparsed, -⟩ := eq_ok_of_map hread
      exact parseHostPort_of_stray hstray parsed hparsed
    · rintro rfl
      have htarget := hnormal.target
      rw [pathAndQuery_urlOf, target_eq hscheme hparts] at htarget
      simp [keptQuery, behind] at htarget
  · rintro ⟨hstray, hbare⟩
    have hread : parseAuthority
        (urlOf (toLowerAscii schemeText) userinfo host port path query fragment).authority =
          .ok (userinfo, host, port) := parseAuthority_again hauthority hstray
    refine ⟨?_, ?_, ?_⟩
    · rw [render_urlOf, parseUrl_eq_ok (hscheme' _) hagain, lower_scheme hlower]
      exact ⟨hlower, userinfo, host, port, hread, hhost, hoctets, urlOf_kept.symm⟩
    · rw [pathAndQuery_urlOf, target_eq hscheme hparts, keptQuery, if_neg hbare]
    · rw [authorityText_eq hscheme hparts, hread, hauthority]

theorem normal_iff_localhost :
    Normal (octets "HTTP://u@[::1]:080?q#")
        { scheme := octets "http", userinfo := octets "u", host := octets "::1", port := 80,
          hasPort := true, path := octets "/", query := octets "q", hasFragment := true } ↔
      ¬OddHost (hostText (authorityText (octets "HTTP://u@[::1]:080?q#"))) ∧
        ¬BareQuery (targetText (octets "HTTP://u@[::1]:080?q#")) :=
  normal_iff (by decide +kernel)

/-- A second bracket at the front of the host is taken for the first when it is read again. -/
theorem bracketed_bracket_lost :
    parseUrl (octets "http://[[::1]/") =
        .ok { scheme := octets "http", host := octets "[::1", path := octets "/" } ∧
      Url.render { scheme := octets "http", host := octets "[::1", path := octets "/" } true =
        octets "http://[::1/" ∧
      parseUrl (octets "http://[::1/") = .error (err .invalidArgument "IPv6 地址缺少 ']'：'[::1'") := by
  decide +kernel

end Parts

end FileService.Net
