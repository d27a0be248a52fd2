import Mathlib.Tactic

/-!
# Results, errors and JSON values

`Result` is the error-or-value type every port returns. JSON values appear where
the service keeps members it does not interpret, such as the `extra` object of a
location record.
-/
namespace FileService.Common

inductive ErrorKind where
  | ok
  | invalidArgument
  | fileSourceEmpty
  | invalidSourcePath
  | locationAlreadyExists
  | checksumMismatch
  | unauthenticated
  | permissionDenied
  | storageAccessDenied
  | notFound
  | unimplemented
  | internal
  | badGateway
  | unavailable
deriving DecidableEq, Repr

structure Error where
  kind : ErrorKind := .internal
  message : String := ""
  details : List (String × String) := []
deriving DecidableEq, Repr

abbrev Result (α : Type) := Except Error α

def err (kind : ErrorKind) (message : String) : Error := { kind, message }

def Error.withDetail (e : Error) (key value : String) : Error :=
  { e with details := e.details ++ [(key, value)] }

def Result.isOk {α : Type} : Result α → Bool
  | .ok _ => true
  | .error _ => false

@[simp] theorem Result.isOk_ok {α : Type} (a : α) : Result.isOk (.ok a : Result α) = true := rfl

@[simp] theorem Result.isOk_error {α : Type} (e : Error) :
    Result.isOk (.error e : Result α) = false := rfl

/-- Going through a list succeeds with the values of the items. -/
theorem mapM_eq_ok {ε α β : Type} {f : α → Except ε β} {xs : List α} {ys : List β} :
    xs.mapM f = .ok ys ↔ List.Forall₂ (fun x y => f x = .ok y) xs ys := by
  induction xs generalizing ys with
  | nil => simp [pure, Except.pure, eq_comm]
  | cons x xs ih =>
    have hcons : (x :: xs).mapM f = .ok ys ↔
        ∃ y rest, f x = .ok y ∧ xs.mapM f = .ok rest ∧ ys = y :: rest := by
      rw [List.mapM_cons]
      generalize f x = first, xs.mapM f = others
      cases first <;> cases others <;> simp [bind, Except.bind, pure, Except.pure, eq_comm]
    rw [hcons, List.forall₂_cons_left_iff]
    simp only [ih]

namespace Json

/-- JSON values; an object keeps its members sorted by name, as `std::map` does. -/
inductive Value where
  | null
  | boolean (b : Bool)
  | integer (n : Int)
  | float (bits : UInt64)
  | string (s : String)
  | array (items : List Value)
  | object (members : List (String × Value))

namespace Value

def isObject : Value → Bool
  | object _ => true
  | _ => false

def members : Value → List (String × Value)
  | object ms => ms
  | _ => []

/-- `empty()`: nothing to iterate over. -/
def isEmpty : Value → Bool
  | null => true
  | array items => items.isEmpty
  | object ms => ms.isEmpty
  | _ => false

/-- `find`: the member of an object, if there is one. -/
def find? (v : Value) (name : String) : Option Value := v.members.lookup name

def contains (v : Value) (name : String) : Bool := (v.find? name).isSome

/-- `get<std::string>()`; a value of another type makes the library throw. -/
def asString? : Value → Option String
  | string s => some s
  | _ => none

def insertMember (name : String) (v : Value) : List (String × Value) → List (String × Value)
  | [] => [(name, v)]
  | (m, w) :: ms =>
    if m = name then (m, v) :: ms
    else if name < m then (name, v) :: (m, w) :: ms
    else (m, w) :: insertMember name v ms

/-- `v[name] = x` on an object. -/
def set (v : Value) (name : String) (x : Value) : Value := object (insertMember name x v.members)

theorem lookup_insertMember (name k : String) (v : Value) (ms : List (String × Value)) :
    (insertMember name v ms).lookup k = if k = name then some v else ms.lookup k := by
  induction ms with
  | nil =>
    by_cases hk : k = name
    · simp [insertMember, hk]
    · have hb : (k == name) = false := by simpa using hk
      simp [insertMember, List.lookup_cons, hb, hk]
  | cons m ms ih =>
    obtain ⟨m, w⟩ := m
    by_cases hm : m = name
    · subst hm
      by_cases hk : k = m
      · simp [insertMember, hk]
      · have hb : (k == m) = false := by simpa using hk
        simp [insertMember, List.lookup_cons, hb, hk]
    · by_cases hlt : name < m
      · by_cases hk : k = name
        · simp [insertMember, hm, hlt, hk]
        · have hb : (k == name) = false := by simpa using hk
          simp [insertMember, hm, hlt, List.lookup_cons, hb, hk]
      · by_cases hk : k = m
        · subst hk
          simp [insertMember, hm, hlt]
        · have hb : (k == m) = false := by simpa using hk
          simp [insertMember, hm, hlt, List.lookup_cons, hb, ih]

@[simp] theorem find?_set (v x : Value) (name k : String) :
    (v.set name x).find? k = if k = name then some x else v.find? k :=
  lookup_insertMember name k x v.members

@[simp] theorem isObject_set (v x : Value) (name : String) : (v.set name x).isObject = true := rfl

end Value
end Json

end FileService.Common
