import FileService.Common.JsonText
import FileService.Logging.Alike

/-!
# What text redaction hides

Field redaction gives the same for two objects that differ only in strings
under names that a rule matches. Redaction of their texts does so where a hit
ends with each such name and no character of a string ends a value; otherwise
a part of the string stays.
-/
namespace FileService.Logging.Redactor
open FileService.Common.Spans FileService.Common.Json
open FileService.Common.Json (Value)

mutual

/-- The values differ only in strings that are members of objects, and in those as `ok` says of
the name and both strings. -/
inductive Alike (ok : String → String → String → Prop) : Value → Value → Prop
  | same (v : Value) : Alike ok v v
  | array {items items' : List Value} : AlikeItems ok items items' →
      Alike ok (.array items) (.array items')
  | object {members members' : List (String × Value)} : AlikeMembers ok members members' →
      Alike ok (.object members) (.object members')

inductive AlikeItems (ok : String → String → String → Prop) : List Value → List Value → Prop
  | nil : AlikeItems ok [] []
  | cons {v v' : Value} {items items' : List Value} : Alike ok v v' → AlikeItems ok items items' →
      AlikeItems ok (v :: items) (v' :: items')

inductive AlikeMembers (ok : String → String → String → Prop) :
    List (String × Value) → List (String × Value) → Prop
  | nil : AlikeMembers ok [] []
  | secret {name s s' : String} {members members' : List (String × Value)} : ok name s s' →
      AlikeMembers ok members members' →
      AlikeMembers ok ((name, .string s) :: members) ((name, .string s') :: members')
  | member (name : String) {v v' : Value} {members members' : List (String × Value)} :
      Alike ok v v' → AlikeMembers ok members members' →
      AlikeMembers ok ((name, v) :: members) ((name, v') :: members')

end

/-- Strings that say something, under a name that a rule matches. -/
def Secrets (r : Redactor) (name s s' : String) : Prop :=
  r.matchesName name.toList = true ∧ s ≠ "" ∧ s' ≠ ""

/-! ## Fields -/

section Fields
variable {r : Redactor}

/-- Without rules there is no secret. -/
theorem Secrets.keys_ne_nil {name s s' : String} (h : Secrets r name s s') : r.keys ≠ [] := by
  intro hkeys
  have hnorm : r.keysNorm = [] := List.length_eq_zero_iff.mp (by rw [← r.paired, hkeys]; rfl)
  have hmatches := h.1
  simp [matchesName, hnorm] at hmatches

mutual

theorem Alike.apply_eq {v v' : Value} :
    Alike (Secrets r) v v' → r.apply v = r.apply v' ∧ (r.keys = [] → v = v')
  | .same _ => ⟨rfl, fun _ => rfl⟩
  | .array h => by
    obtain ⟨happly, hsame⟩ := h.apply_eq
    rw [apply, apply, happly]
    split_ifs with hkeys
    · simp [hkeys, hsame hkeys]
    · simp [hkeys]
  | .object h => by
    obtain ⟨happly, hsame⟩ := h.apply_eq
    rw [apply, apply, happly]
    split_ifs with hkeys
    · simp [hkeys, hsame hkeys]
    · simp [hkeys]

theorem AlikeItems.apply_eq {items items' : List Value} :
    AlikeItems (Secrets r) items items' →
      r.applyItems items = r.applyItems items' ∧ (r.keys = [] → items = items')
  | .nil => ⟨rfl, fun _ => rfl⟩
  | .cons h hs => by
    obtain ⟨happly, hsame⟩ := h.apply_eq
    obtain ⟨happlies, hsames⟩ := hs.apply_eq
    rw [applyItems, applyItems, happly, happlies]
    exact ⟨rfl, fun hkeys => by rw [hsame hkeys, hsames hkeys]⟩

theorem AlikeMembers.apply_eq {members members' : List (String × Value)} :
    AlikeMembers (Secrets r) members members' →
      r.applyMembers members = r.applyMembers members' ∧ (r.keys = [] → members = members')
  | .nil => ⟨rfl, fun _ => rfl⟩
  | .secret hsecret hs => by
    obtain ⟨happlies, -⟩ := hs.apply_eq
    rw [applyMembers, applyMembers, happlies, if_pos hsecret.1, if_pos hsecret.1]
    exact ⟨rfl, fun hkeys => absurd hkeys hsecret.keys_ne_nil⟩
  | .member name h hs => by
    obtain ⟨happly, hsame⟩ := h.apply_eq
    obtain ⟨happlies, hsames⟩ := hs.apply_eq
    rw [applyMembers, applyMembers, happly, happlies]
    exact ⟨rfl, fun hkeys => by rw [hsame hkeys, hsames hkeys]⟩

end

/-- Field redaction shows nothing of a secret. -/
theorem apply_alike {v v' : Value} (h : Alike (Secrets r) v v') : r.apply v = r.apply v' :=
  h.apply_eq.1

end Fields

/-! ## Texts -/

/-- No character of the string ends a value, once it is escaped. -/
def Plain (s : String) : Prop := ∀ c ∈ s.toList, c ∉ ['"', '\'', ',', ';', '\x7d', ']']

instance (s : String) : Decidable (Plain s) := List.decidableBAll _ s.toList

/-- A hit ends with the name as it is written, and the string is plain. -/
def Safe (r : Redactor) (name s : String) : Prop := EndsInHit r.keysNorm (escape name) ∧ Plain s

instance (r : Redactor) (name s : String) : Decidable (Safe r name s) :=
  inferInstanceAs (Decidable (_ ∧ _))

section Escape
variable {s : String} {c : Char}

/-- The digits of an escape end nothing. -/
theorem not_end_hexDigit {n : Nat} (hn : n < 16) : isColonValueEnd (hexDigit n) = false := by
  have hall : ∀ n : Fin 16, isColonValueEnd (hexDigit n) = false := by decide
  exact hall ⟨n, hn⟩

theorem unbroken_escapeChar (c : Char) :
    Unbroken (escapeChar c) ↔ c ∉ ['"', '\'', ',', ';', '\x7d', ']'] := by
  have hcontrol : c.toNat ≤ 31 → c ∉ ['"', '\'', ',', ';', '\x7d', ']'] := by
    intro hlow hmem
    simp only [List.mem_cons, List.not_mem_nil, or_false] at hmem
    rcases hmem with rfl | rfl | rfl | rfl | rfl | rfl <;> exact absurd hlow (by decide)
  unfold escapeChar
  split_ifs with hback htab hline hfeed hreturn hquote hslash hlow
  · exact iff_of_true (by decide) (hcontrol (by omega))
  · exact iff_of_true (by decide) (by rw [htab]; decide)
  · exact iff_of_true (by decide) (by rw [hline]; decide)
  · exact iff_of_true (by decide) (hcontrol (by omega))
  · exact iff_of_true (by decide) (by rw [hreturn]; decide)
  · exact iff_of_false (by decide) (by rw [hquote]; decide)
  · exact iff_of_true (by decide) (by rw [hslash]; decide)
  · refine iff_of_true ?_ (hcontrol hlow)
    have hhigh := not_end_hexDigit (n := c.toNat / 16) (by omega)
    have hrest := not_end_hexDigit (n := c.toNat % 16) (by omega)
    have hfixed : Unbroken ['\\', 'u', '0', '0'] := by decide
    intro d hd
    rcases List.mem_append.mp (show d ∈ ['\\', 'u', '0', '0'] ++
      [hexDigit (c.toNat / 16), hexDigit (c.toNat % 16)] from hd) with hd | hd
    · exact hfixed d hd
    · simp only [List.mem_cons, List.not_mem_nil, or_false] at hd
      rcases hd with rfl | rfl
      · exact hhigh
      · exact hrest
  · simp only [Unbroken, forall_eq, isColonValueEnd, List.contains_cons,
      List.contains_nil, Bool.or_false, Bool.or_eq_false_iff, beq_eq_false_iff_ne, List.mem_cons,
      List.not_mem_nil, or_false, not_or]
    constructor
    · rintro ⟨-, -, hends⟩
      exact hends
    · intro hends
      exact ⟨hline, hreturn, hends⟩

theorem unbroken_escape : Unbroken (escape s) ↔ Plain s := by
  have hall : Unbroken (escape s) ↔ ∀ c ∈ s.toList, Unbroken (escapeChar c) := by
    simp only [Unbroken, escape, List.mem_flatMap]
    exact ⟨fun h c hc d hd => h d ⟨c, hc, hd⟩, fun h d ⟨c, hc, hd⟩ => h c hc d hd⟩
  rw [hall]
  simp only [unbroken_escapeChar, Plain]

theorem escape_ne_nil (h : s ≠ "") : escape s ≠ [] := by
  have hchar : ∀ c, escapeChar c ≠ [] := by
    intro c
    unfold escapeChar
    split_ifs <;> simp
  have hlist : s.toList ≠ [] := by simpa using h
  obtain ⟨c, rest, hsplit⟩ := List.exists_cons_of_ne_nil hlist
  unfold escape
  rw [hsplit, List.flatMap_cons]
  exact List.append_ne_nil_of_left_ne_nil (hchar c) _

end Escape

/-! ## Where the strings stand -/

/-- A string that is a member of an object: its name, and what its text stands between. -/
structure Place where
  before : List Char
  name : String
  value : String
  after : List Char

/-- Where the first character of the string stands. -/
def Place.start (place : Place) : Nat := place.before.length + (escape place.name).length + 4

mutual

/-- The strings in the text of a value that stands between two texts. -/
def places (floatText : UInt64 → List Char) (before after : List Char) : Value → List Place
  | .array items => itemPlaces floatText (before ++ ['[']) (']' :: after) items
  | .object members => memberPlaces floatText (before ++ ['\x7b']) ('\x7d' :: after) members
  | _ => []

def itemPlaces (floatText : UInt64 → List Char) (before after : List Char) : List Value → List Place
  | [] => []
  | v :: items =>
    places floatText before (comma items.isEmpty (Value.dumpItems floatText items) ++ after) v ++
      itemPlaces floatText (before ++ v.dump floatText ++ [',']) after items

def memberPlaces (floatText : UInt64 → List Char) (before after : List Char) :
    List (String × Value) → List Place
  | [] => []
  | (name, v) :: members =>
    let later := comma members.isEmpty (Value.dumpMembers floatText members) ++ after
    (v.asString?.toList.map fun s => { before, name, value := s, after := later }) ++
      places floatText (before ++ quoted name ++ [':']) later v ++
      memberPlaces floatText (before ++ quoted name ++ ':' :: v.dump floatText ++ [',']) after members

end

section Places
variable {floatText : UInt64 → List Char} {place : Place}

/-- The text around a place. -/
def Place.text (place : Place) : List Char :=
  place.before ++ opening (escape place.name) ++ (escape place.value ++ '"' :: place.after)

mutual

theorem text_of_mem_places {before after : List Char} : ∀ {v : Value},
    place ∈ places floatText before after v → before ++ v.dump floatText ++ after = place.text
  | .array items, h => by
    have htext := text_of_mem_itemPlaces h
    rw [Value.dump, ← htext]
    simp
  | .object members, h => by
    have htext := text_of_mem_memberPlaces h
    rw [Value.dump, ← htext]
    simp
  | .null, h => nomatch h
  | .boolean _, h => nomatch h
  | .integer _, h => nomatch h
  | .float _, h => nomatch h
  | .string _, h => nomatch h

theorem text_of_mem_itemPlaces {before after : List Char} : ∀ {items : List Value},
    place ∈ itemPlaces floatText before after items →
      before ++ Value.dumpItems floatText items ++ after = place.text
  | [], h => nomatch h
  | v :: items, h => by
    rw [Value.dumpItems]
    rcases List.mem_append.mp h with h | h
    · rw [← text_of_mem_places h]
      simp
    · have hmore : items.isEmpty = false := by
        cases items with
        | nil => cases h
        | cons => rfl
      rw [← text_of_mem_itemPlaces h, hmore]
      simp [comma]

theorem text_of_mem_memberPlaces {before after : List Char} : ∀ {members : List (String × Value)},
    place ∈ memberPlaces floatText before after members →
      before ++ Value.dumpMembers floatText members ++ after = place.text
  | [], h => nomatch h
  | (name, v) :: members, h => by
    rw [Value.dumpMembers]
    rcases List.mem_append.mp h with h | h
    · rcases List.mem_append.mp h with h | h
      · obtain ⟨s, hs, rfl⟩ := List.mem_map.mp h
        cases v with
        | string =>
          cases List.mem_singleton.mp hs
          simp [Place.text, Value.dump, quoted, opening]
        | _ => cases hs
      · rw [← text_of_mem_places h]
        simp
    · have hmore : members.isEmpty = false := by
        cases members with
        | nil => cases h
        | cons => rfl
      rw [← text_of_mem_memberPlaces h, hmore]
      simp [comma]

end

end Places

/-! ## Two texts -/

section Texts
variable {r : Redactor} {floatText : UInt64 → List Char}

theorem AlikeItems.isEmpty_eq {ok : String → String → String → Prop} {items items' : List Value}
    (h : AlikeItems ok items items') : items.isEmpty = items'.isEmpty := by
  cases h <;> rfl

theorem AlikeMembers.isEmpty_eq {ok : String → String → String → Prop}
    {members members' : List (String × Value)} (h : AlikeMembers ok members members') :
    members.isEmpty = members'.isEmpty := by
  cases h <;> rfl

/-- Two strings that stay hidden under the name. -/
def Hidden (r : Redactor) (name s s' : String) : Prop :=
  Secrets r name s s' ∧ Safe r name s ∧ Safe r name s'

mutual

theorem Alike.like {v v' : Value} {text text' : List Char} :
    Alike (Hidden r) v v' → Like r.keysNorm text text' →
      Like r.keysNorm (v.dump floatText ++ text) (v'.dump floatText ++ text')
  | .same _, h => h.append _
  | .array hs, h => by
    have hitems := hs.like (h.char ']')
    simpa [Value.dump] using hitems.char '['
  | .object hs, h => by
    have hmembers := hs.like h
    simpa [Value.dump] using hmembers.char '\x7b'

theorem AlikeItems.like {items items' : List Value} {text text' : List Char} :
    AlikeItems (Hidden r) items items' → Like r.keysNorm text text' →
      Like r.keysNorm (Value.dumpItems floatText items ++ text)
        (Value.dumpItems floatText items' ++ text')
  | .nil, h => h
  | .cons hv hs, h => by
    rw [Value.dumpItems, Value.dumpItems, List.append_assoc, List.append_assoc, hs.isEmpty_eq]
    refine hv.like ?_
    unfold comma
    split_ifs
    · exact h
    · exact (hs.like h).char ','

theorem AlikeMembers.like {members members' : List (String × Value)} {text text' : List Char} :
    AlikeMembers (Hidden r) members members' → Like r.keysNorm text text' →
      Like r.keysNorm (Value.dumpMembers floatText members ++ '\x7d' :: text)
        (Value.dumpMembers floatText members' ++ '\x7d' :: text')
  | .nil, h => h.char '\x7d'
  | .secret hsecret hs, h => by
    obtain ⟨⟨-, hs', hs''⟩, hsafe, hsafe'⟩ := hsecret
    have hbreaks := unbroken_escape.mpr hsafe.2
    have hbreaks' := unbroken_escape.mpr hsafe'.2
    have hfirst := escape_ne_nil hs'
    have hsecond := escape_ne_nil hs''
    rw [Value.dumpMembers, Value.dumpMembers, hs.isEmpty_eq]
    unfold comma
    split_ifs
    · simpa [Value.dump, quoted, opening] using
        Like.secret hsafe.1 hfirst hsecond hbreaks hbreaks' (.inr rfl) h
    · simpa [Value.dump, quoted, opening] using
        Like.secret hsafe.1 hfirst hsecond hbreaks hbreaks' (.inl rfl) (hs.like h)
  | .member name hv hs, h => by
    rw [Value.dumpMembers, Value.dumpMembers, hs.isEmpty_eq]
    unfold comma
    split_ifs
    · simpa using (hv.like (h.char '\x7d')).append (quoted name ++ [':'])
    · simpa using (hv.like ((hs.like h).char ',')).append (quoted name ++ [':'])

end

/-- The places of a text from here on, so many of them, are all in what the scrubber replaces. -/
def Replaces (r : Redactor) (text : List Char) (start length : Nat) : Prop :=
  ∀ p, start ≤ p → p < start + length → Covers (r.ranges text) p

/-- No character of a string that is a member stays in the scrubbed text if and only if a hit ends
with its name and it is plain; texts that differ only in such strings are scrubbed to the same. -/
theorem scrubText_hides_iff (r : Redactor) (floatText : UInt64 → List Char)
    (hquotes : ∀ key ∈ r.keysNorm, '"' ∉ key) :
    (∀ v, ∀ place ∈ places floatText [] [] v, place.value ≠ "" →
      (r.Replaces (v.dump floatText) place.start (escape place.value).length ↔
        r.Safe place.name place.value)) ∧
    ∀ v v', Alike r.Hidden v v' →
      r.scrubText (v.dump floatText) = r.scrubText (v'.dump floatText) := by
  constructor
  · intro v place hplace hvalue
    have htext := text_of_mem_places hplace
    rw [List.nil_append, List.append_nil] at htext
    rw [htext]
    have hcovers := covers_secret_iff hquotes place.before (escape place.name) (escape place.value)
      ('"' :: place.after) (escape_ne_nil hvalue)
    rw [unbroken_escape] at hcovers
    exact hcovers
  · intro v v' h
    have hlike : Like r.keysNorm (v.dump floatText ++ []) (v'.dump floatText ++ []) := h.like .nil
    rw [List.append_nil, List.append_nil] at hlike
    rw [scrubText_eq_redraw, scrubText_eq_redraw]
    exact hlike.redraw_eq hquotes r.nonempty fun key _ => due_zero

/-- A password with a comma in it: what stands behind the comma is shown. -/
theorem text_behind_comma_shown :
    ¬∀ v v' : Value, Alike (make ["password".toList]).Secrets v v' →
      (make ["password".toList]).scrubText (v.dump fun _ => []) =
        (make ["password".toList]).scrubText (v'.dump fun _ => []) := by
  intro h
  have hsame := h (.object [("password", .string "a,b")]) (.object [("password", .string "a,c")])
    (.object (.secret ⟨by decide, by decide, by decide⟩ .nil))
  revert hsame
  decide

theorem scrubText_hides_token :
    (make ["token".toList]).scrubText
        (Value.dump (fun _ => []) (.object [("token", .string "abc")])) =
      (make ["token".toList]).scrubText
        (Value.dump (fun _ => []) (.object [("token", .string "de f")])) := by
  refine (scrubText_hides_iff (make ["token".toList]) (fun _ => []) (by decide)).2 _ _
    (.object (.secret ⟨⟨by decide, by decide, by decide⟩, by decide, by decide⟩ .nil))

end Texts

end FileService.Logging.Redactor
