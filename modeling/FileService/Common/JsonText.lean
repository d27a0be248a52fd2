import FileService.Common.Members
import FileService.Common.Result

/-!
# JSON values as text

The writer leaves no blanks. In strings it escapes quotes, backslashes and the
characters before the blank. It has no form for the numbers that are not finite,
and writes null in their place; all other values are read back as they were. The
texts of doubles are a parameter.
-/
namespace FileService.Common.Json

def hexDigit (n : Nat) : Char := ("0123456789abcdef".toList).getD n '0'

/-- One character of a string. -/
def escapeChar (c : Char) : List Char :=
  if c.toNat = 8 then ['\\', 'b']
  else if c = '\t' then ['\\', 't']
  else if c = '\n' then ['\\', 'n']
  else if c.toNat = 12 then ['\\', 'f']
  else if c = '\r' then ['\\', 'r']
  else if c = '"' then ['\\', '"']
  else if c = '\\' then ['\\', '\\']
  else if c.toNat ≤ 31 then ['\\', 'u', '0', '0', hexDigit (c.toNat / 16), hexDigit (c.toNat % 16)]
  else [c]

/-- `dump_escaped` -/
def escape (s : String) : List Char := s.toList.flatMap escapeChar

/-- Between the quotes. -/
def quoted (s : String) : List Char := '"' :: escape s ++ ['"']

/-- What comes behind a comma, unless it was the last. -/
def comma (last : Bool) (text : List Char) : List Char := if last then [] else ',' :: text

namespace Value

mutual

/-- `dump` -/
def dump (floatText : UInt64 → List Char) : Value → List Char
  | null => "null".toList
  | boolean b => (if b then "true" else "false").toList
  | integer n => (toString n).toList
  | float bits => floatText bits
  | string s => quoted s
  | array items => '[' :: dumpItems floatText items ++ [']']
  | object members => '\x7b' :: dumpMembers floatText members ++ ['\x7d']

def dumpItems (floatText : UInt64 → List Char) : List Value → List Char
  | [] => []
  | v :: items => v.dump floatText ++ comma items.isEmpty (dumpItems floatText items)

def dumpMembers (floatText : UInt64 → List Char) : List (String × Value) → List Char
  | [] => []
  | (name, v) :: members =>
    quoted name ++ ':' :: v.dump floatText ++ comma members.isEmpty (dumpMembers floatText members)

end

end Value

end FileService.Common.Json

/-! ## Values that are read back -/

namespace FileService.Common.Json.Value

/-- The exponent of a double is not the one of infinities and of values that are no number. -/
def isFiniteDouble (bits : UInt64) : Bool := (bits >>> 52) &&& 0x7FF != 0x7FF

mutual

/-- All numbers are finite. -/
def isFinite : Value → Bool
  | float bits => isFiniteDouble bits
  | array items => areFinite items
  | object ms => membersFinite ms
  | _ => true

def areFinite : List Value → Bool
  | [] => true
  | item :: items => item.isFinite && areFinite items

def membersFinite : List (String × Value) → Bool
  | [] => true
  | (_, x) :: ms => x.isFinite && membersFinite ms

end

mutual

/-- The value that a text stands for: null in the place of each number that is not finite. -/
def nullified : Value → Value
  | float bits => if isFiniteDouble bits then float bits else null
  | array items => array (nullifiedItems items)
  | object ms => object (nullifiedMembers ms)
  | v => v

def nullifiedItems : List Value → List Value
  | [] => []
  | item :: items => item.nullified :: nullifiedItems items

def nullifiedMembers : List (String × Value) → List (String × Value)
  | [] => []
  | (name, x) :: ms => (name, x.nullified) :: nullifiedMembers ms

end

mutual

theorem nullified_eq_iff (v : Value) : v.nullified = v ↔ v.isFinite = true := by
  cases v with
  | float bits => cases h : isFiniteDouble bits <;> simp [nullified, isFinite, h]
  | array items => simpa [nullified, isFinite] using nullifiedItems_eq_iff items
  | object ms => simpa [nullified, isFinite] using nullifiedMembers_eq_iff ms
  | _ => simp [nullified, isFinite]

theorem nullifiedItems_eq_iff (items : List Value) :
    nullifiedItems items = items ↔ areFinite items = true := by
  cases items with
  | nil => simp [nullifiedItems, areFinite]
  | cons item items =>
    simp [nullifiedItems, areFinite, nullified_eq_iff item, nullifiedItems_eq_iff items]

theorem nullifiedMembers_eq_iff (ms : List (String × Value)) :
    nullifiedMembers ms = ms ↔ membersFinite ms = true := by
  cases ms with
  | nil => simp [nullifiedMembers, membersFinite]
  | cons m ms =>
    obtain ⟨name, x⟩ := m
    simp [nullifiedMembers, membersFinite, nullified_eq_iff x, nullifiedMembers_eq_iff ms]

end

mutual

theorem isFinite_nullified (v : Value) : v.nullified.isFinite = true := by
  cases v with
  | float bits => cases h : isFiniteDouble bits <;> simp [nullified, isFinite, h]
  | array items => simpa [nullified, isFinite] using areFinite_nullifiedItems items
  | object ms => simpa [nullified, isFinite] using membersFinite_nullifiedMembers ms
  | _ => simp [nullified, isFinite]

theorem areFinite_nullifiedItems (items : List Value) : areFinite (nullifiedItems items) = true := by
  cases items with
  | nil => rfl
  | cons item items =>
    simp [nullifiedItems, areFinite, isFinite_nullified item, areFinite_nullifiedItems items]

theorem membersFinite_nullifiedMembers (ms : List (String × Value)) :
    membersFinite (nullifiedMembers ms) = true := by
  cases ms with
  | nil => rfl
  | cons m ms =>
    obtain ⟨name, x⟩ := m
    simp [nullifiedMembers, membersFinite, isFinite_nullified x, membersFinite_nullifiedMembers ms]

end

section Members
variable {v x : Value} {name : String} {known : List String}

@[simp] theorem isObject_nullified : v.nullified.isObject = v.isObject := by
  cases v with
  | float bits => cases h : isFiniteDouble bits <;> simp [nullified, isObject, h]
  | _ => rfl

theorem nullifiedMembers_eq_map (ms : List (String × Value)) :
    nullifiedMembers ms = ms.map fun m => (m.1, m.2.nullified) := by
  induction ms with
  | nil => rfl
  | cons m ms ih => simp [nullifiedMembers, ih]

theorem members_nullified (v : Value) : v.nullified.members = nullifiedMembers v.members := by
  cases v with
  | float bits => cases h : isFiniteDouble bits <;> simp [nullified, members, nullifiedMembers, h]
  | _ => rfl

@[simp] theorem find?_nullified : v.nullified.find? name = (v.find? name).map nullified := by
  rw [find?, find?, members_nullified]
  generalize v.members = ms
  induction ms with
  | nil => rfl
  | cons m ms ih =>
    obtain ⟨m, y⟩ := m
    by_cases hm : name = m
    · simp [nullifiedMembers, hm]
    · have hb : (name == m) = false := by simpa using hm
      simp [nullifiedMembers, List.lookup_cons, hb, ih]

@[simp] theorem without_nullified : v.nullified.without known = (v.without known).nullified := by
  simp only [without, nullified, members_nullified, nullifiedMembers_eq_map, List.filter_map]
  rfl

end Members

/-! ## The text codec -/

/-- The writer and the reader of JSON texts. -/
structure TextCodec where
  dump : Value → String
  parseObject : String → Result Value

/-- The text of a value is read as what it stands for. -/
def TextCodec.Reads (codec : TextCodec) (v : Value) : Prop :=
  codec.parseObject (codec.dump v) = .ok v.nullified

end FileService.Common.Json.Value
