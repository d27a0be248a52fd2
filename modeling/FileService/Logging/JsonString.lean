import FileService.Common.Utf8

/-!
# Strings of the log

Texts of a log line come from anywhere, so the writer of strings takes any
octets. It escapes what a JSON string cannot hold, lets well-formed sequences
through and writes one replacement character for each part that is not.
-/
namespace FileService.Logging
open FileService.Domain (Bytes)
open FileService.Common.Crypto (octets)
open FileService.Common.Utf8 FileService.Common.StringToken

/-! ## The writer -/

def hex (n : Nat) : UInt8 := (octets "0123456789abcdef").getD n 0

/-- The length of the sequence that starts with the octet, or 0. -/
def utf8SeqLen (c : UInt8) : Nat :=
  if c < 0x80 then 1
  else if 0xC2 ≤ c ∧ c ≤ 0xDF then 2
  else if 0xE0 ≤ c ∧ c ≤ 0xEF then 3
  else if 0xF0 ≤ c ∧ c ≤ 0xF4 then 4
  else 0

def continuationRange (b0 : UInt8) (len k : Nat) : UInt8 × UInt8 :=
  if k ≠ 1 then (0x80, 0xBF)
  else
    (if len = 4 ∧ b0 = 0xF0 then 0x90 else if len = 3 ∧ b0 = 0xE0 then 0xA0 else 0x80,
      if len = 4 ∧ b0 = 0xF4 then 0x8F else if len = 3 ∧ b0 = 0xED then 0x9F else 0xBF)

def escapedAscii (c : UInt8) : Bytes :=
  if c = 34 then [92, 34]
  else if c = 92 then [92, 92]
  else if c = 8 then [92, 98]
  else if c = 12 then [92, 102]
  else if c = 10 then [92, 110]
  else if c = 13 then [92, 114]
  else if c = 9 then [92, 116]
  else if c < 0x20 then [92, 117, 48, 48, hex (c.toNat / 16), hex (c.toNat % 16)]
  else [c]

/-- The loop over the continuation octets, with so many left: whether all of them are in range,
and how many are. -/
def continuations (b0 : UInt8) (len : Nat) : Nat → Bytes → Bool × Nat
  | 0, _ => (true, 0)
  | _ + 1, [] => (false, 0)
  | left + 1, b :: rest =>
    let range := continuationRange b0 len (len - (left + 1))
    if b < range.1 ∨ range.2 < b then (false, 0)
    else
      let later := continuations b0 len left rest
      (later.1, later.2 + 1)

/-- One turn of the loop: what it writes, and how many octets behind the first it passes over. -/
def turn (c : UInt8) (rest : Bytes) : Bytes × Nat :=
  if c < 0x80 then (escapedAscii c, 0)
  else if utf8SeqLen c = 0 then (replacement, 0)
  else
    let read := continuations c (utf8SeqLen c) (utf8SeqLen c - 1) rest
    if read.1 then (c :: rest.take (utf8SeqLen c - 1), utf8SeqLen c - 1)
    else (replacement, read.2)

/-- The octets that each turn of the loop takes, and what it writes for them. -/
def turns : Bytes → List (Bytes × Bytes)
  | [] => []
  | c :: rest =>
    (c :: rest.take (turn c rest).2, (turn c rest).1) :: turns (rest.drop (turn c rest).2)
termination_by s => s.length
decreasing_by
  simp only [List.length_drop, List.length_cons]
  omega

def appendJsonString (out s : Bytes) : Bytes := out ++ (34 :: (turns s).flatMap Prod.snd ++ [34])

/-! ## Continuation octets -/

section Continuations
variable {c : UInt8} {ranges : List Range} {rest : Bytes} {len left : Nat}

/-- The ranges of the octets behind the first. -/
def tails (c : UInt8) : List Range :=
  (List.range' 1 (utf8SeqLen c - 1)).map (continuationRange c (utf8SeqLen c))

/-- The rows that start with the octet. -/
def rowsOf (c : UInt8) : List (List Range) :=
  table.filter fun row => row.head?.any fun r => decide (InRange r c)

theorem rowsOf_eq (c : UInt8) : (rowsOf c).map List.tail = if utf8SeqLen c = 0 then [] else [tails c] := by
  have hall : ∀ n : Fin 256, (rowsOf (UInt8.ofNat n)).map List.tail =
      if utf8SeqLen (UInt8.ofNat n) = 0 then [] else [tails (UInt8.ofNat n)] := by
    decide +kernel
  have h := hall ⟨c.toNat, c.toNat_lt⟩
  rwa [UInt8.ofNat_toNat] at h

/-- The table and the ranges of the writer say the same. -/
theorem isChar_cons_iff : IsChar (c :: rest) ↔
    utf8SeqLen c ≠ 0 ∧ List.Forall₂ InRange (tails c) rest := by
  have hrows := rowsOf_eq c
  constructor
  · rintro ⟨row, hrow, hmatch⟩
    obtain ⟨r, behind, hr, hbehind, rfl⟩ := List.forall₂_cons_right_iff.mp hmatch
    have hmem : behind ∈ (rowsOf c).map List.tail :=
      List.mem_map.mpr ⟨r :: behind, by simpa [rowsOf] using ⟨hrow, hr⟩, rfl⟩
    rw [hrows] at hmem
    split_ifs at hmem with hlen
    · cases hmem
    · exact ⟨hlen, List.mem_singleton.mp hmem ▸ hbehind⟩
  · rintro ⟨hlen, hbehind⟩
    have hmem : tails c ∈ (rowsOf c).map List.tail := by
      rw [hrows, if_neg hlen]
      exact List.mem_singleton.mpr rfl
    obtain ⟨row, hrow, htail⟩ := List.mem_map.mp hmem
    obtain ⟨hrow, hhead⟩ := List.mem_filter.mp hrow
    cases row with
    | nil => cases hhead
    | cons r behind =>
      refine ⟨r :: behind, hrow, .cons (by simpa using hhead) ?_⟩
      rwa [show behind = tails c from htail]

theorem isFront_cons_iff : IsFront (c :: rest) ↔
    utf8SeqLen c ≠ 0 ∧ ∃ later, List.Forall₂ InRange (tails c) (rest ++ later) := by
  simp only [IsFront, List.cons_append, isChar_cons_iff, exists_and_left]

theorem range_of_mem_tails {r : Range} (h : r ∈ tails c) : 0x80 ≤ r.1 ∧ r.1 ≤ r.2 := by
  have hall : ∀ n : Fin 256,
      ((tails (UInt8.ofNat n)).all fun r => decide (0x80 ≤ r.1 ∧ r.1 ≤ r.2)) = true := by
    decide +kernel
  have hc := hall ⟨c.toNat, c.toNat_lt⟩
  rw [UInt8.ofNat_toNat] at hc
  exact of_decide_eq_true (List.all_eq_true.mp hc r h)

/-- The loop, over a list of ranges. -/
def accepted : List Range → Bytes → Bool × Nat
  | [], _ => (true, 0)
  | _ :: _, [] => (false, 0)
  | r :: ranges, b :: rest =>
    if InRange r b then ((accepted ranges rest).1, (accepted ranges rest).2 + 1) else (false, 0)

theorem continuations_eq (hleft : left ≤ len) : continuations c len left rest =
    accepted ((List.range' (len - left) left).map (continuationRange c len)) rest := by
  induction left generalizing rest with
  | zero => rfl
  | succ left ih =>
    have hnext : len - (left + 1) + 1 = len - left := by omega
    rw [List.range'_succ, List.map_cons, hnext]
    cases rest with
    | nil => rfl
    | cons b rest =>
      rw [continuations, accepted]
      dsimp only
      rw [ih (by omega)]
      by_cases hin : InRange (continuationRange c len (len - (left + 1))) b
      · rw [if_pos hin, if_neg]
        exact not_or.mpr ⟨UInt8.not_lt.mpr hin.1, UInt8.not_lt.mpr hin.2⟩
      · rw [if_neg hin, if_pos]
        by_contra hnot
        obtain ⟨hlow, hhigh⟩ := not_or.mp hnot
        exact hin ⟨UInt8.not_lt.mp hlow, UInt8.not_lt.mp hhigh⟩

theorem accepted_all (h : (accepted ranges rest).1 = true) :
    (accepted ranges rest).2 = ranges.length ∧
      List.Forall₂ InRange ranges (rest.take ranges.length) := by
  induction ranges generalizing rest with
  | nil => exact ⟨rfl, .nil⟩
  | cons r ranges ih =>
    cases rest with
    | nil => cases h
    | cons b rest =>
      rw [accepted] at h ⊢
      split_ifs at h ⊢ with hin
      obtain ⟨hlength, hmatch⟩ := ih h
      exact ⟨congrArg (· + 1) hlength, .cons hin hmatch⟩

/-- Where the loop stops early, the octets up to there can be completed, and no more of them. -/
theorem accepted_some (h : (accepted ranges rest).1 = false) (hranges : ∀ r ∈ ranges, r.1 ≤ r.2) :
    (∃ later, List.Forall₂ InRange ranges (rest.take (accepted ranges rest).2 ++ later)) ∧
      (accepted ranges rest).2 ≤ rest.length ∧ (accepted ranges rest).2 < ranges.length ∧
      ∀ front later, front <+: rest → List.Forall₂ InRange ranges (front ++ later) →
        front.length ≤ (accepted ranges rest).2 := by
  induction ranges generalizing rest with
  | nil => cases h
  | cons r ranges ih =>
    have hfill : List.Forall₂ InRange (r :: ranges) ((r :: ranges).map Prod.fst) := by
      rw [List.forall₂_map_right_iff, List.forall₂_same]
      exact fun q hq => ⟨UInt8.le_refl _, hranges q hq⟩
    cases rest with
    | nil =>
      refine ⟨⟨_, hfill⟩, le_rfl, Nat.succ_pos _, ?_⟩
      intro front later hfront _
      rw [List.prefix_nil.mp hfront]
      exact le_rfl
    | cons b rest =>
      rw [accepted] at h ⊢
      split_ifs at h ⊢ with hin
      · obtain ⟨⟨later, hmatch⟩, hle, hlt, hlongest⟩ :=
          ih h fun q hq => hranges q (List.mem_cons_of_mem _ hq)
        refine ⟨⟨later, .cons hin hmatch⟩, Nat.succ_le_succ hle, Nat.succ_lt_succ hlt, ?_⟩
        intro front later hfront hmatch
        cases front with
        | nil => exact Nat.zero_le _
        | cons d front =>
          obtain ⟨-, hfront⟩ := List.cons_prefix_cons.mp hfront
          cases hmatch with
          | cons _ hmatch => exact Nat.succ_le_succ (hlongest front later hfront hmatch)
      · refine ⟨⟨_, hfill⟩, Nat.zero_le _, Nat.succ_pos _, ?_⟩
        intro front later hfront hmatch
        cases front with
        | nil => exact le_rfl
        | cons d front =>
          obtain ⟨rfl, -⟩ := List.cons_prefix_cons.mp hfront
          cases hmatch with
          | cons hd _ => exact absurd hd hin

end Continuations

/-! ## One turn -/

section Turn
variable {c : UInt8} {rest text : Bytes}

theorem length_tails : (tails c).length = utf8SeqLen c - 1 := by
  rw [tails, List.length_map, List.length_range']

/-- What is written for an octet string is read back as that octet string. -/
def Writes (written value : Bytes) : Prop :=
  WellFormed written ∧ (∀ b ∈ written, 0x20 ≤ b) ∧
    ∀ text, unescaped? (written ++ text) = (unescaped? text).map (value ++ ·)

theorem writes_high (hwell : WellFormed text) (h : ∀ b ∈ text, 0x80 ≤ b) : Writes text text :=
  ⟨hwell, fun b hb => UInt8.le_trans (by decide) (h b hb), fun _ => unescaped?_high h⟩

theorem writes_replacement : Writes replacement replacement :=
  writes_high (IsChar.wellFormed (isChar_cons_iff.mpr (by decide))) (by simp [replacement])

theorem writes_short {e b : UInt8} (hunit : e ≠ 117) (hshort : shortEscape? e = some b)
    (hrange : 0x20 ≤ e ∧ e ≤ 0x7F) : Writes [92, e] [b] := by
  refine ⟨wellFormed_ascii ?_, ?_, fun _ => unescaped?_short hunit hshort⟩
  · simpa using hrange.2
  · simpa using hrange.1

theorem writes_escapedAscii (h : c < 0x80) : Writes (escapedAscii c) [c] := by
  unfold escapedAscii
  split_ifs with h34 h92 h8 h12 h10 h13 h9 hcontrol
  · rw [h34]
    exact writes_short (by decide) rfl (by decide)
  · rw [h92]
    exact writes_short (by decide) rfl (by decide)
  · rw [h8]
    exact writes_short (by decide) rfl (by decide)
  · rw [h12]
    exact writes_short (by decide) rfl (by decide)
  · rw [h10]
    exact writes_short (by decide) rfl (by decide)
  · rw [h13]
    exact writes_short (by decide) rfl (by decide)
  · rw [h9]
    exact writes_short (by decide) rfl (by decide)
  · have hall : ∀ n : Fin 32,
        codeUnit? 48 48 (hex (n.val / 16)) (hex (n.val % 16)) = some n.val ∧
          encoded n.val = [UInt8.ofNat n.val] ∧
          ∀ b ∈ [92, 117, 48, 48, hex (n.val / 16), hex (n.val % 16)], 0x20 ≤ b ∧ b ≤ 0x7F := by
      decide +kernel
    obtain ⟨hunit, hencoded, hrange⟩ := hall ⟨c.toNat, UInt8.lt_iff_toNat_lt.mp hcontrol⟩
    refine ⟨wellFormed_ascii fun b hb => (hrange b hb).2, fun b hb => (hrange b hb).1, ?_⟩
    intro text
    have hsmall : c.toNat < 0xD800 := (UInt8.lt_iff_toNat_lt.mp hcontrol).trans (by decide)
    rw [UInt8.ofNat_toNat] at hencoded
    rw [← hencoded]
    exact unescaped?_unit hunit hsmall
  · refine ⟨(isChar_ascii ?_).wellFormed, ?_, fun _ => unescaped?_plain h92 h34 hcontrol⟩
    · exact UInt8.le_iff_toNat_le.mpr (Nat.le_of_lt_succ (UInt8.lt_iff_toNat_lt.mp h))
    · simpa using hcontrol

theorem high_of_matches {ranges : List Range} (hranges : ∀ r ∈ ranges, 0x80 ≤ r.1)
    (h : List.Forall₂ InRange ranges text) : ∀ b ∈ text, 0x80 ≤ b := by
  induction h with
  | nil => simp
  | @cons r b ranges text hb _ ih =>
    intro d hd
    rcases List.mem_cons.mp hd with rfl | hd
    · exact UInt8.le_trans (hranges r List.mem_cons_self) hb.1
    · exact ih (fun q hq => hranges q (List.mem_cons_of_mem _ hq)) d hd

/-- What the loop over the continuation octets passes over is a maximal subpart if it stops
before the end of the sequence. -/
theorem maximalSubpart_of_accepted (hlen : utf8SeqLen c ≠ 0)
    (h : (accepted (tails c) rest).1 = false) :
    MaximalSubpart (c :: rest.take (accepted (tails c) rest).2) (c :: rest) := by
  obtain ⟨hfront, hle, hlt, hlongest⟩ := accepted_some h fun r hr => (range_of_mem_tails hr).2
  refine ⟨List.cons_prefix_cons.mpr ⟨rfl, List.take_prefix _ _⟩, ?_,
    .inl (isFront_cons_iff.mpr ⟨hlen, hfront⟩), List.cons_ne_nil _ _, ?_⟩
  · rintro l hl hchar
    cases l with
    | nil => exact hchar.ne_nil rfl
    | cons d l =>
      obtain ⟨rfl, hrest⟩ := List.cons_prefix_cons.mp hl
      have hmatch := (isChar_cons_iff.mp hchar).2
      have hshort := hlongest l [] hrest (by simpa using hmatch)
      have hlength := hmatch.length_eq
      omega
  · rintro longer hlonger hlt hlongfront
    cases longer with
    | nil => cases hlt
    | cons d l =>
      obtain ⟨rfl, hl⟩ := List.cons_prefix_cons.mp hlonger
      obtain ⟨-, later, hmatch⟩ := isFront_cons_iff.mp hlongfront
      have hshort := hlongest l later hl hmatch
      rw [List.length_cons, List.length_cons, List.length_take_of_le hle] at hlt
      omega

/-- A turn takes a character and writes it, or takes a maximal subpart and writes the
replacement character. -/
theorem turn_spec (c : UInt8) (rest : Bytes) : ∃ value, Writes (turn c rest).1 value ∧
    ((IsChar (c :: rest.take (turn c rest).2) ∧ value = c :: rest.take (turn c rest).2) ∨
      MaximalSubpart (c :: rest.take (turn c rest).2) (c :: rest) ∧ value = replacement) := by
  by_cases hascii : c < 0x80
  · have hchar : IsChar [c] :=
      isChar_ascii (UInt8.le_iff_toNat_le.mpr (Nat.le_of_lt_succ (UInt8.lt_iff_toNat_lt.mp hascii)))
    rw [turn, if_pos hascii]
    exact ⟨[c], writes_escapedAscii hascii, .inl ⟨hchar, rfl⟩⟩
  · rw [turn, if_neg hascii]
    by_cases hlen : utf8SeqLen c = 0
    · rw [if_pos hlen]
      refine ⟨replacement, writes_replacement, .inr ⟨?_, rfl⟩⟩
      refine ⟨List.prefix_append [c] rest, ?_, .inr rfl, List.cons_ne_nil _ _, ?_⟩
      · rintro l hl hchar
        cases l with
        | nil => exact hchar.ne_nil rfl
        | cons d l =>
          obtain ⟨rfl, -⟩ := List.cons_prefix_cons.mp hl
          exact (isChar_cons_iff.mp hchar).1 hlen
      · rintro longer hlonger hlt hfront
        cases longer with
        | nil => cases hlt
        | cons d l =>
          obtain ⟨rfl, -⟩ := List.cons_prefix_cons.mp hlonger
          exact (isFront_cons_iff.mp hfront).1 hlen
    · have hread : continuations c (utf8SeqLen c) (utf8SeqLen c - 1) rest =
          accepted (tails c) rest := by
        have hfirst : utf8SeqLen c - (utf8SeqLen c - 1) = 1 := by omega
        rw [continuations_eq (Nat.sub_le _ _), hfirst, tails]
      rw [if_neg hlen, hread]
      dsimp only
      by_cases hok : (accepted (tails c) rest).1 = true
      · have hmatch := (accepted_all hok).2
        rw [length_tails] at hmatch
        have hchar : IsChar (c :: rest.take (utf8SeqLen c - 1)) := isChar_cons_iff.mpr ⟨hlen, hmatch⟩
        rw [if_pos hok]
        refine ⟨_, writes_high hchar.wellFormed ?_, .inl ⟨hchar, rfl⟩⟩
        intro b hb
        rcases List.mem_cons.mp hb with rfl | hb
        · exact UInt8.not_lt.mp hascii
        · exact high_of_matches (fun r hr => (range_of_mem_tails hr).1) hmatch b hb
      · rw [Bool.not_eq_true] at hok
        rw [hok, if_neg Bool.false_ne_true]
        exact ⟨replacement, writes_replacement, .inr ⟨maximalSubpart_of_accepted hlen hok, rfl⟩⟩

end Turn

/-! ## The whole text -/

section Whole
variable {s : Bytes}

/-- Every octet is taken once, in order. -/
theorem turns_taken (s : Bytes) : (turns s).flatMap Prod.fst = s := by
  induction s using turns.induct with
  | case1 => rw [turns, List.flatMap_nil]
  | case2 c rest ih => rw [turns, List.flatMap_cons, ih, List.cons_append, List.take_append_drop]

theorem turns_nonempty (s : Bytes) : ∀ t ∈ turns s, t.1 ≠ [] := by
  induction s using turns.induct with
  | case1 => simp [turns]
  | case2 c rest ih =>
    rw [turns]
    rintro t ht
    rcases List.mem_cons.mp ht with rfl | ht
    · exact List.cons_ne_nil _ _
    · exact ih t ht

/-- The turns together write a text that is read back as the replaced one. -/
theorem turns_written (s : Bytes) :
    ∃ value, Writes ((turns s).flatMap Prod.snd) value ∧ Replaced s value := by
  induction s using turns.induct with
  | case1 =>
    refine ⟨[], ?_, .nil⟩
    rw [turns, List.flatMap_nil]
    exact ⟨⟨[], rfl, by simp⟩, by simp, fun text => by simp⟩
  | case2 c rest ih =>
    obtain ⟨later, ⟨hwell, hplain, hread⟩, hlater⟩ := ih
    obtain ⟨value, ⟨hwell', hplain', hread'⟩, htaken⟩ := turn_spec c rest
    refine ⟨value ++ later, ?_, ?_⟩
    · rw [turns, List.flatMap_cons]
      refine ⟨hwell'.append hwell, ?_, ?_⟩
      · intro b hb
        exact (List.mem_append.mp hb).elim (hplain' b) (hplain b)
      · intro text
        rw [List.append_assoc, hread', hread, Option.map_map]
        congr 1
        funext tail
        exact (List.append_assoc _ _ _).symm
    · have hsplit : c :: rest = (c :: rest.take (turn c rest).2) ++ rest.drop (turn c rest).2 := by
        rw [List.cons_append, List.take_append_drop]
      rw [hsplit]
      rcases htaken with ⟨hchar, rfl⟩ | ⟨hpart, rfl⟩
      · exact .char hchar hlater
      · exact .part (hsplit ▸ hpart) hlater

end Whole

/-- A string of the log is a valid JSON string whose value is the text with every maximal
subpart replaced; it has no control character, and every octet of the text is taken once. -/
theorem appendJsonString_valid (out s : Bytes) :
    ∃ token, appendJsonString out s = out ++ token ∧ WellFormed token ∧ (∀ b ∈ token, 0x20 ≤ b) ∧
      (∀ value, stringValue? token = some value ↔ Replaced s value) ∧
      (turns s).flatMap Prod.fst = s ∧ ∀ t ∈ turns s, t.1 ≠ [] := by
  obtain ⟨value, ⟨hwell, hplain, hread⟩, hreplaced⟩ := turns_written s
  have hquote : WellFormed [34] := (isChar_ascii (by decide)).wellFormed
  refine ⟨_, rfl, ?_, ?_, ?_, turns_taken s, turns_nonempty s⟩
  · exact (hquote.append hwell).append hquote
  · intro b hb
    rcases List.mem_append.mp hb with hb | hb
    · rcases List.mem_cons.mp hb with rfl | hb
      · decide
      · exact hplain b hb
    · rw [List.mem_singleton.mp hb]
      decide
  · intro w
    have hvalue : unescaped? ((turns s).flatMap Prod.snd) = some value := by
      have hend := hread []
      rwa [List.append_nil, unescaped?, Option.map_some, List.append_nil] at hend
    rw [stringValue?_quoted, hvalue, Option.some.injEq]
    exact ⟨fun heq => heq ▸ hreplaced, fun hw => hreplaced.unique hw⟩

end FileService.Logging
