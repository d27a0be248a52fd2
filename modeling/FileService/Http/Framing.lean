import Mathlib.Tactic

/-!
# Message framing of HTTP/1.1

How a reader finds the requests in a stream of octets. A head runs to the first
blank line; its fields say how long the body is that follows; the next head
starts where the body ends. A head that is not well formed, or whose length
cannot be told, ends the reading.
-/
namespace FileService.Wire

def crlf : List Char := ['\r', '\n']

def blankLine : List Char := ['\r', '\n', '\r', '\n']

/-- Where the pattern starts for the first time. -/
def findText (pattern : List Char) : List Char → Option Nat
  | [] => if pattern = [] then some 0 else none
  | c :: cs => if pattern.isPrefixOf (c :: cs) then some 0 else (findText pattern cs).map (· + 1)

theorem findText_cons (pattern : List Char) (c : Char) (cs : List Char) :
    findText pattern (c :: cs) =
      if pattern.isPrefixOf (c :: cs) then some 0 else (findText pattern cs).map (· + 1) := rfl

/-- What has been found is there. -/
theorem take_findText {pattern s : List Char} {n : Nat} (h : findText pattern s = some n) :
    s.take (n + pattern.length) = s.take n ++ pattern := by
  induction s generalizing n with
  | nil =>
    simp only [findText, Option.ite_none_right_eq_some, Option.some.injEq] at h
    simp [h.1]
  | cons c cs ih =>
    rw [findText_cons] at h
    split at h
    · rename_i hprefix
      obtain rfl : 0 = n := by simpa using h
      simpa using List.prefix_iff_eq_take.mp (List.isPrefixOf_iff_prefix.mp hprefix) |>.symm
    · obtain ⟨m, hm, rfl⟩ := Option.map_eq_some_iff.mp h
      rw [Nat.add_right_comm, List.take_succ_cons, List.take_succ_cons, ih hm]
      rfl

theorem findText_le {pattern s : List Char} {n : Nat} (h : findText pattern s = some n) :
    n + pattern.length ≤ s.length := by
  induction s generalizing n with
  | nil =>
    simp only [findText, Option.ite_none_right_eq_some, Option.some.injEq] at h
    simp [h.1, ← h.2]
  | cons c cs ih =>
    rw [findText_cons] at h
    split at h
    · rename_i hprefix
      obtain rfl : 0 = n := by simpa using h
      simpa using (List.isPrefixOf_iff_prefix.mp hprefix).length_le
    · obtain ⟨m, hm, rfl⟩ := Option.map_eq_some_iff.mp h
      have hle := ih hm
      simp only [List.length_cons]
      omega

/-- More text behind it does not change where a pattern is found. -/
theorem findText_append {pattern s : List Char} {n : Nat} (rest : List Char)
    (h : findText pattern s = some n) : findText pattern (s ++ rest) = some n := by
  induction s generalizing n with
  | nil =>
    simp only [findText, Option.ite_none_right_eq_some, Option.some.injEq] at h
    obtain ⟨rfl, rfl⟩ := h
    cases rest <;> simp [findText]
  | cons c cs ih =>
    rw [List.cons_append, findText_cons]
    rw [findText_cons] at h
    split at h
    · rename_i hprefix
      have hlonger : pattern.isPrefixOf (c :: (cs ++ rest)) = true := by
        rw [List.isPrefixOf_iff_prefix] at hprefix ⊢
        exact hprefix.trans (List.prefix_append (c :: cs) rest)
      rw [if_pos hlonger, ← h]
    · rename_i hno
      obtain ⟨m, hm, rfl⟩ := Option.map_eq_some_iff.mp h
      have hshort := findText_le hm
      have hno' : ¬pattern.isPrefixOf (c :: (cs ++ rest)) = true := by
        rw [List.isPrefixOf_iff_prefix] at hno ⊢
        intro hlong
        exact hno (List.prefix_of_prefix_length_le hlong (List.prefix_append (c :: cs) rest)
          (by simp only [List.length_cons]; omega))
      rw [if_neg hno', ih hm]
      rfl

/-! ## Heads -/

def isTokenChar (c : Char) : Bool := c.isAlphanum || "!#$%&'*+-.^_|~".toList.contains c || c.toNat == 96

def isToken (s : List Char) : Bool := !s.isEmpty && s.all isTokenChar

def isBlank (c : Char) : Bool := c == ' ' || c == '\t'

def isVisible (c : Char) : Bool := decide (0x21 ≤ c.toNat) && c.toNat != 0x7F

def strip (s : List Char) : List Char := (s.reverse.dropWhile isBlank).reverse.dropWhile isBlank

def lines : List Char → List (List Char)
  | [] => [[]]
  | '\r' :: '\n' :: rest => [] :: lines rest
  | c :: rest =>
    match lines rest with
    | l :: ls => (c :: l) :: ls
    | [] => [[c]]

/-- `method SP target SP HTTP/x.y` -/
def isRequestLine (line : List Char) : Bool :=
  match line.splitOn ' ' with
  | [method, target, version] =>
    isToken method && !target.isEmpty && target.all isVisible &&
      match version with
      | ['H', 'T', 'T', 'P', '/', major, '.', minor] => major.isDigit && minor.isDigit
      | _ => false
  | _ => false

/-- A field: its name in lower case, and its value. -/
def field? (line : List Char) : Option (List Char × List Char) :=
  let name := line.takeWhile (· ≠ ':')
  let value := strip (line.drop (name.length + 1))
  if isToken name = true ∧ name.length < line.length ∧ value.all (fun c => isVisible c || isBlank c)
  then some (name.map Char.toLower, value)
  else none

/-- The fields of a well-formed head. -/
def fields? (head : List Char) : Option (List (List Char × List Char)) :=
  match lines head with
  | [] => none
  | line :: rest => if isRequestLine line = true then rest.mapM field? else none

/-! ## Bodies -/

inductive Framing where
  | bodiless
  | length (n : Nat)
  | chunked
deriving DecidableEq, Repr

def values (name : String) (fields : List (List Char × List Char)) : List (List Char) :=
  (fields.filter fun f => f.1 == name.toList).map Prod.snd

def decimal? (s : List Char) : Option Nat :=
  if s ≠ [] ∧ s.all Char.isDigit = true then
    some (s.foldl (fun v c => v * 10 + (c.toNat - '0'.toNat)) 0)
  else none

/-- The codings of the transfer, in the order in which they were applied. -/
def codings (fields : List (List Char × List Char)) : List (List Char) :=
  (values "transfer-encoding" fields).flatMap fun v =>
    (v.splitOn ',').map fun coding => (strip coding).map Char.toLower

/-- How long the body of a request is; nothing if that cannot be told. -/
def framing? (fields : List (List Char × List Char)) : Option Framing :=
  match values "transfer-encoding" fields, values "content-length" fields with
  | [], [] => some .bodiless
  | [], n :: others => if others.all (· == n) then (decimal? n).map .length else none
  | _ :: _, [] =>
    if (codings fields).getLast? = some "chunked".toList ∧
        (codings fields).dropLast.all (· ≠ "chunked".toList) then some .chunked
    else none
  | _ :: _, _ :: _ => none

def hexValue? (c : Char) : Option Nat :=
  if '0' ≤ c ∧ c ≤ '9' then some (c.toNat - '0'.toNat)
  else if 'a' ≤ c ∧ c ≤ 'f' then some (c.toNat - 'a'.toNat + 10)
  else if 'A' ≤ c ∧ c ≤ 'F' then some (c.toNat - 'A'.toNat + 10)
  else none

/-- The size of a chunk, in front of its extensions. -/
def chunkSize? (line : List Char) : Option Nat :=
  let digits := strip (line.takeWhile (· ≠ ';'))
  if digits = [] then none
  else digits.foldlM (fun v c => (hexValue? c).map (v * 16 + ·)) 0

/-- The length of the chunked body at the front of the text, if it is there in full. The fuel
bounds the number of chunks. -/
def chunkedFrom : Nat → List Char → Option Nat
  | 0, _ => none
  | fuel + 1, s =>
    match findText crlf s with
    | none => none
    | some eol =>
      let rest := s.drop (eol + 2)
      match chunkSize? (s.take eol) with
      | none => none
      | some 0 =>
        if crlf.isPrefixOf rest then some (eol + 4)
        else (findText blankLine rest).map (eol + 2 + · + 4)
      | some size =>
        if crlf.isPrefixOf (rest.drop size) then
          (chunkedFrom fuel (rest.drop (size + 2))).map (eol + 2 + size + 2 + ·)
        else none

def chunkedLength? (s : List Char) : Option Nat := chunkedFrom (s.length + 1) s

theorem chunkedFrom_pos {fuel n : Nat} {s : List Char} (h : chunkedFrom fuel s = some n) :
    0 < n := by
  cases fuel with
  | zero => cases h
  | succ fuel =>
    rw [chunkedFrom] at h
    cases heol : findText crlf s with
    | none => simp [heol] at h
    | some eol =>
      cases hsize : chunkSize? (s.take eol) with
      | none => simp [heol, hsize] at h
      | some size =>
        cases size with
        | zero =>
          simp only [heol, hsize] at h
          split at h
          · simp only [Option.some.injEq] at h
            omega
          · obtain ⟨m, -, rfl⟩ := Option.map_eq_some_iff.mp h
            omega
        | succ size =>
          simp only [heol, hsize] at h
          split at h
          · obtain ⟨m, -, rfl⟩ := Option.map_eq_some_iff.mp h
            omega
          · cases h

/-- The length of the body at the front of the text, if it is there in full. -/
def Framing.ends (f : Framing) (s : List Char) : Option Nat :=
  match f with
  | .bodiless => some 0
  | .length n => if n ≤ s.length then some n else none
  | .chunked => chunkedLength? s

/-- The octet at position `q` behind the head belongs to the body. -/
def Framing.Owns (f : Framing) (s : List Char) (q : Nat) : Prop :=
  match f with
  | .bodiless => False
  | .length n => q < n
  | .chunked => ∀ n, chunkedLength? s = some n → q < n

/-- No octet follows. -/
def Framing.Empty (f : Framing) : Prop := f = .bodiless ∨ f = .length 0

theorem Framing.Empty.not_owns {f : Framing} (h : f.Empty) (s : List Char) (q : Nat) :
    ¬f.Owns s q := by
  rcases h with rfl | rfl
  · exact id
  · exact Nat.not_lt_zero q

theorem Framing.Empty.ends {f : Framing} (h : f.Empty) (s : List Char) : f.ends s = some 0 := by
  rcases h with rfl | rfl
  · rfl
  · simp [Framing.ends]

/-- Every other body owns the octet right behind the head. -/
theorem Framing.empty_of_not_owns {f : Framing} {s : List Char} (h : ¬f.Owns s 0) : f.Empty := by
  cases f with
  | bodiless => exact .inl rfl
  | length n => exact .inr (congrArg Framing.length (Nat.eq_zero_of_not_pos h))
  | chunked => exact absurd (fun n hn => chunkedFrom_pos hn) h

/-! ## The requests of a stream -/

/-- The head at the front of the text. -/
def head? (s : List Char) : Option (List Char) := (findText blankLine s).map s.take

/-- Where the message after the one at `p` starts. -/
def next? (stream : List Char) (p : Nat) : Option Nat :=
  match head? (stream.drop p) with
  | none => none
  | some head =>
    match (fields? head).bind framing? with
    | none => none
    | some f => (f.ends (stream.drop (p + head.length + 4))).map (p + head.length + 4 + ·)

/-- Where the message with number `k` starts. -/
def start? (stream : List Char) : Nat → Option Nat
  | 0 => some 0
  | k + 1 => (start? stream k).bind (next? stream)

/-- A message starts at `p`. -/
def Starts (stream : List Char) (p : Nat) : Prop := ∃ k, start? stream k = some p

/-- The reader finds this head at `p`. -/
def HeadAt (stream : List Char) (p : Nat) (head : List Char) : Prop :=
  Starts stream p ∧ head? (stream.drop p) = some head ∧ (fields? head).isSome = true

section Starts
variable {stream : List Char} {p q : Nat}

theorem starts_zero : Starts stream 0 := ⟨0, rfl⟩

theorem Starts.next (h : Starts stream p) (hnext : next? stream p = some q) : Starts stream q := by
  obtain ⟨k, hk⟩ := h
  exact ⟨k + 1, by simp [start?, hk, hnext]⟩

theorem lt_of_next (h : next? stream p = some q) : p < q := by
  unfold next? at h
  repeat' split at h
  · cases h
  · cases h
  · obtain ⟨n, -, rfl⟩ := Option.map_eq_some_iff.mp h
    omega

theorem start_of_lt {i j : Nat} (h : i < j) (hq : start? stream j = some q) :
    ∃ p p', start? stream i = some p ∧ next? stream p = some p' ∧ p' ≤ q := by
  induction j generalizing q with
  | zero => omega
  | succ j ih =>
    obtain ⟨r, hr, hnext⟩ := Option.bind_eq_some_iff.mp hq
    rcases Nat.lt_succ_iff_lt_or_eq.mp h with hlt | rfl
    · obtain ⟨p, p', hp, hp', hle⟩ := ih hlt hr
      exact ⟨p, p', hp, hp', hle.trans (lt_of_next hnext).le⟩
    · exact ⟨r, q, hr, hnext, le_rfl⟩

/-- No message starts inside of another one. -/
theorem Starts.next_le (hp : Starts stream p) (hq : Starts stream q) (hlt : p < q) :
    ∃ p', next? stream p = some p' ∧ p' ≤ q := by
  obtain ⟨i, hi⟩ := hp
  obtain ⟨j, hj⟩ := hq
  rcases Nat.lt_trichotomy i j with hij | rfl | hji
  · obtain ⟨p₁, p', hp₁, hnext, hle⟩ := start_of_lt hij hj
    obtain rfl : p₁ = p := Option.some.inj (hp₁.symm.trans hi)
    exact ⟨p', hnext, hle⟩
  · have heq : p = q := Option.some.inj (hi.symm.trans hj)
    omega
  · obtain ⟨q₁, q', hq₁, hnext, hle⟩ := start_of_lt hji hi
    have heq : q₁ = q := Option.some.inj (hq₁.symm.trans hj)
    have hlt' := lt_of_next hnext
    omega

end Starts

end FileService.Wire
