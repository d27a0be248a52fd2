import FileService.Common.JsonTree
import FileService.Configuration.LongInt
import FileService.S3.Exchange
import FileService.Common.Text

/-!
# Schemas, configurations and their values

A schema lists the fields by their dotted paths, and the prefixes below which
any name may stand. A configuration is a tree of values, with the layer that
each field comes from and the problems that were found.
-/

/-!
## Dotted paths

A path is a text with dots between its segments. Names without dots come back
from the path that is made of them.
-/
namespace FileService.Common.DottedPath
open FileService.Common.Text

def segments (path : String) : List String := splitOnChar '.' path

/-- The path of one more name; the empty path is where it starts. -/
def extend (path name : String) : String := if path = "" then name else path ++ "." ++ name

section Segments
variable {path path' name : String}

theorem segments_ne_nil : segments path ≠ [] := by
  simp [segments, splitOnChar, List.splitOn_ne_nil]

theorem segments_injective (h : segments path = segments path') : path = path' := by
  have hlists : path.toList.splitOn '.' = path'.toList.splitOn '.' :=
    List.map_injective_iff.mpr (fun a b hab => by simpa using congrArg String.toList hab) h
  have hjoined := congrArg (List.intercalate ['.']) hlists
  rw [List.intercalate_splitOn, List.intercalate_splitOn] at hjoined
  exact String.toList_inj.mp hjoined

theorem segments_of_notMem (h : '.' ∉ name.toList) : segments name = [name] := by
  simp [segments, splitOnChar, List.splitOn_eq_singleton h]

theorem segments_append : segments (path ++ "." ++ path') = segments path ++ segments path' := by
  simp [segments, splitOnChar, List.splitOn_append_cons_self]

theorem notMem_of_mem_splitOn {l piece : List Char} (h : piece ∈ l.splitOn '.') : '.' ∉ piece := by
  induction l generalizing piece with
  | nil =>
    obtain rfl : piece = [] := by simpa using h
    simp
  | cons c l ih =>
    rw [List.splitOn_cons_eq_if_modifyHead] at h
    split_ifs at h with hdot
    · rcases List.mem_cons.mp h with rfl | h
      · simp
      · exact ih h
    · obtain ⟨first, rest, hsplit⟩ := List.exists_cons_of_ne_nil (List.splitOn_ne_nil '.' l)
      rw [hsplit, List.modifyHead_cons] at h
      rcases List.mem_cons.mp h with rfl | h
      · have hfirst := ih (hsplit ▸ List.mem_cons_self)
        have hne : '.' ≠ c := fun heq => hdot (beq_iff_eq.mpr heq.symm)
        exact List.not_mem_cons_of_ne_of_not_mem hne hfirst
      · exact ih (hsplit ▸ List.mem_cons_of_mem _ h)

theorem notMem_of_mem_segments (h : name ∈ segments path) : '.' ∉ name.toList := by
  obtain ⟨piece, hpiece, rfl⟩ := List.mem_map.mp h
  rw [String.toList_ofList]
  exact notMem_of_mem_splitOn hpiece

end Segments

/-! ## Names on the way -/

/-- The path of all the names. -/
def joined (names : List String) : String := names.foldl extend ""

/-- Names that a path can tell apart: without dots, and the first is not empty. -/
def Plain (names : List String) : Prop :=
  names.head? ≠ some "" ∧ ∀ name ∈ names, '.' ∉ name.toList

section Joined
variable {names : List String} {name : String}

theorem joined_append_singleton : joined (names ++ [name]) = extend (joined names) name := by
  simp [joined]

theorem Plain.init (h : Plain (names ++ [name])) : Plain names := by
  refine ⟨?_, fun n hn => h.2 n (List.mem_append_left _ hn)⟩
  have hfirst := h.1
  cases names with
  | nil => simp
  | cons first names => simpa using hfirst

theorem joined_ne_empty (h : Plain names) (hne : names ≠ []) : joined names ≠ "" := by
  induction names using List.reverseRecOn with
  | nil => exact absurd rfl hne
  | append_singleton names name ih =>
    rw [joined_append_singleton, extend]
    split_ifs with hempty
    · by_cases hnames : names = []
      · subst hnames
        simpa [Plain] using h.1
      · exact absurd hempty (ih h.init hnames)
    · simp

/-- The names come back. -/
theorem segments_joined (h : Plain names) (hne : names ≠ []) : segments (joined names) = names := by
  induction names using List.reverseRecOn with
  | nil => exact absurd rfl hne
  | append_singleton names name ih =>
    have hname : segments name = [name] := segments_of_notMem (h.2 name (by simp))
    rw [joined_append_singleton, extend]
    by_cases hnames : names = []
    · subst hnames
      simpa [joined] using hname
    · rw [if_neg (joined_ne_empty h.init hnames), segments_append, ih h.init hnames, hname]

end Joined

end FileService.Common.DottedPath

namespace FileService.Configuration
open FileService.Common FileService.Common.Json FileService.Common.DottedPath FileService.Common.Text

inductive ValueType where
  | string
  | int
  | bool
  | stringList
deriving DecidableEq, Repr

/-- One field; numbers have no range if the maximum is below the minimum. -/
structure FieldSpec where
  path : String
  type : ValueType := .string
  required : Bool := false
  hasDefault : Bool := false
  defaultValue : String := ""
  minValue : Int := 0
  maxValue : Int := -1
  enumValues : List String := []
deriving DecidableEq, Repr

/-- A rule over several fields: the paths and messages of what it finds. -/
abbrev CrossCheck := Value → List (String × String)

structure Schema where
  fields : List FieldSpec := []
  dynamicPrefixes : List String := []
  crossChecks : List (String × CrossCheck) := []

namespace Schema

/-- `Find`: the index keeps the last field that was added under a path. -/
def find? (schema : Schema) (path : String) : Option FieldSpec :=
  schema.fields.reverse.find? fun f => f.path = path

/-- The path is the given one or goes on from it with a dot. -/
def isBelow (above path : String) : Bool :=
  let rest := path.toList.drop above.toList.length
  above.toList.isPrefixOf path.toList && (rest.isEmpty || rest.head? == some '.')

def isAllowedPath (schema : Schema) (path : String) : Bool :=
  (schema.find? path).isSome || schema.dynamicPrefixes.any fun above => isBelow above path

end Schema

/-! ## Configurations -/

inductive Source where
  | file
  | env
  | cli
  | default
  | schema
  | cross
deriving DecidableEq, Repr

structure Problem where
  path : String
  message : String
  source : Source
deriving DecidableEq, Repr

/-- What the loader is given by the process and by the libraries: JSON with comments, the text that
an output stream makes of a double, the files, and the environment. -/
structure Platform where
  parseWithComments : String → Result Value
  floatText : UInt64 → String
  readFile : String → Option String
  getenv : List Char → Option String

structure LoadRequest where
  schema : Schema
  filePath : String := ""
  envEnabled : Bool := true
  envPrefix : String := "FSS_"
  cliOverrides : List (String × String) := []
  envLookup : Option (String → Option String) := none

structure Config where
  effective : Value := Value.emptyObject
  sources : String → Option Source := fun _ => none
  problems : List Problem := []

/-! ## Values as texts -/

/-- `get<long long>()`: an unsigned number above the range wraps around. -/
def asLong (n : Int) : Int := (n + 2 ^ 63) % 2 ^ 64 - 2 ^ 63

/-- `RenderScalar` -/
def renderScalar (platform : Platform) : Value → String
  | .string s => s
  | .boolean b => if b then "true" else "false"
  | .integer n => toString (asLong n)
  | .float bits => platform.floatText bits
  | _ => ""

def parseBool (text : String) : Option Bool :=
  let v := toLower text
  if v ∈ ["true", "1", "yes", "on"] then some true
  else if v ∈ ["false", "0", "no", "off"] then some false
  else none

/-- The items between commas that are not empty. -/
def commaItems (text : String) : List String := (splitOnChar ',' text).filter (· ≠ "")

/-! ## Readers -/

namespace Config

def ok (config : Config) : Bool := config.problems.isEmpty

def report (config : Config) (problem : Problem) : Config :=
  { config with problems := config.problems ++ [problem] }

def setSource (config : Config) (path : String) (source : Source) : Config :=
  { config with sources := fun q => if q = path then some source else config.sources q }

def missing (path : String) : Error := err .notFound ("配置项不存在: " ++ path)

def getString (config : Config) (path : String) : Result String :=
  match config.effective.getAt (segments path) with
  | none => .error (missing path)
  | some (.string s) => .ok s
  | some _ => .error (err .invalidArgument ("配置项不是字符串: " ++ path))

def getInt (config : Config) (path : String) : Result Int :=
  match config.effective.getAt (segments path) with
  | none => .error (missing path)
  | some (.integer n) => .ok (asLong n)
  | some _ => .error (err .invalidArgument ("配置项不是整数: " ++ path))

def getBool (config : Config) (path : String) : Result Bool :=
  match config.effective.getAt (segments path) with
  | none => .error (missing path)
  | some (.boolean b) => .ok b
  | some _ => .error (err .invalidArgument ("配置项不是布尔: " ++ path))

def getStringList (platform : Platform) (config : Config) (path : String) : Result (List String) :=
  match config.effective.getAt (segments path) with
  | none => .error (missing path)
  | some (.array items) => .ok (items.map (renderScalar platform))
  | some _ => .error (err .invalidArgument ("配置项不是数组: " ++ path))

end Config

/-- A value of the type that a field declares. -/
inductive Typed where
  | string (s : String)
  | int (n : Int)
  | bool (b : Bool)
  | stringList (items : List String)
deriving DecidableEq, Repr

/-- The reader for the type of the field. -/
def Config.read (platform : Platform) (config : Config) (f : FieldSpec) : Result Typed :=
  match f.type with
  | .string => (config.getString f.path).map .string
  | .int => (config.getInt f.path).map .int
  | .bool => (config.getBool f.path).map .bool
  | .stringList => (config.getStringList platform f.path).map .stringList

end FileService.Configuration
