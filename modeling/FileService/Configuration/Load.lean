import FileService.Configuration.Schema

/-!
# Loading a configuration

The file, the environment and the command line write into one tree, from the
lowest layer to the highest. Every field is then read from that tree as a text,
converted and checked, and the trees under the dynamic prefixes are copied. All
problems are collected; nothing stops the loading.
-/
namespace FileService.Configuration
open FileService.Common FileService.Common.Json FileService.Common.DottedPath FileService.Common.Text
open FileService.Common.Json.Value (emptyObject)

/-- `EnvNameFor` -/
def envNameFor (path above : String) : String :=
  above ++ String.ofList (path.toList.map fun c => if c = '.' ∨ c = '-' then '_' else c.toUpper)

def LoadRequest.lookup (platform : Platform) (req : LoadRequest) (name : String) : Option String :=
  match req.envLookup with
  | some lookup => lookup name
  | none => platform.getenv (cString name)

/-! ## References to the environment -/

def marker : List Char := "$\x7bENV:".toList

/-- `ExpandEnvRefs`: the text with the references replaced, and the last name that has no value. So
many characters belong to a reference that has been dealt with. -/
def expandFrom (lookup : String → Option String) : List Char → Nat → List Char × Option String
  | [], _ => ([], none)
  | _ :: cs, skip + 1 => expandFrom lookup cs skip
  | c :: cs, 0 =>
    if marker.isPrefixOf (c :: cs) then
      let body := cs.drop 5
      if body.contains '\x7d' then
        let var := body.takeWhile (· ≠ '\x7d')
        let (text, missing) := expandFrom lookup cs (var.length + 6)
        match lookup (String.ofList var) with
        | some value => (value.toList ++ text, missing)
        | none => (marker ++ var ++ '\x7d' :: text, missing <|> some (String.ofList var))
      else (c :: cs, none)
    else
      let (text, missing) := expandFrom lookup cs 0
      (c :: text, missing)

def expandEnvRefs (platform : Platform) (req : LoadRequest) (text : String) : String × Option String :=
  let (expanded, missing) := expandFrom (req.lookup platform) text.toList 0
  (String.ofList expanded, missing)

/-! ## The layers -/

mutual

/-- `CollectPaths`: the paths of the leaves, as far as they have a name. -/
def collectPaths (above : String) : Value → List String
  | .object ms =>
    if ms.isEmpty then (if above = "" then [] else [above]) else collectMembers above ms
  | _ => if above = "" then [] else [above]

def collectMembers (above : String) : List (String × Value) → List String
  | [] => []
  | (name, v) :: ms => collectPaths (extend above name) v ++ collectMembers above ms

end

/-- The tree that is written into, and what becomes of the configuration. -/
structure Layering where
  merged : Value
  config : Config

/-- The tree of the file; a file that cannot be read or has no object is a problem. -/
def fromFile (platform : Platform) (req : LoadRequest) : Value × List Problem :=
  if req.filePath = "" then (emptyObject, [])
  else
    match platform.readFile req.filePath with
    | none => (emptyObject, [⟨"<file>", "无法打开配置文件: " ++ req.filePath, .file⟩])
    | some content =>
      match platform.parseWithComments content with
      | .error e => (emptyObject, [⟨"<file>", "配置解析失败: " ++ S3.errorText e, .file⟩])
      | .ok (.object ms) => (.object ms, [])
      | .ok _ => (emptyObject, [⟨"<file>", "配置顶层必须是 JSON object", .file⟩])

def unknownPaths (schema : Schema) (v : Value) : List Problem :=
  ((collectPaths "" v).filter fun path => !schema.isAllowedPath path).map fun path =>
    ⟨path, "未知配置项（可能是拼写错误；若为动态子树请在 Schema 里声明 AllowDynamicPrefix）", .schema⟩

def fileLayer (platform : Platform) (req : LoadRequest) : Layering :=
  let (v, problems) := fromFile platform req
  { merged := v, config := { problems := problems ++ unknownPaths req.schema v } }

def Layering.write (l : Layering) (path text : String) (source : Source) : Layering :=
  { merged := l.merged.setAt (segments path) (.string text), config := l.config.setSource path source }

def envStep (platform : Platform) (req : LoadRequest) (l : Layering) (f : FieldSpec) : Layering :=
  match req.lookup platform (envNameFor f.path req.envPrefix) with
  | some text => l.write f.path text .env
  | none => l

def envLayer (platform : Platform) (req : LoadRequest) (l : Layering) : Layering :=
  if req.envEnabled then req.schema.fields.foldl (envStep platform req) l else l

def cliStep (schema : Schema) (l : Layering) (given : String × String) : Layering :=
  if schema.isAllowedPath given.1 then l.write given.1 given.2 .cli
  else { l with config := l.config.report ⟨given.1, "命令行覆盖了未知配置项", .cli⟩ }

def layering (platform : Platform) (req : LoadRequest) : Layering :=
  req.cliOverrides.foldl (cliStep req.schema) (envLayer platform req (fileLayer platform req))

/-! ## One field -/

/-- The value as a text, or as a list of texts. -/
def rawTexts (platform : Platform) (type : ValueType) (raw : Value) : Except String (String × List String) :=
  match type, raw with
  | .stringList, .array items => .ok ("", items.map (renderScalar platform))
  | .stringList, .string s => .ok ("", commaItems s)
  | .stringList, _ => .error "类型错误：期望字符串数组"
  | _, .object _ => .error "类型错误：期望标量，实际是 object"
  | _, v => .ok (renderScalar platform v, [])

/-- The value of the declared type, in its range. -/
def converted (f : FieldSpec) (text : String) (items : List String) : Except String Value :=
  match f.type with
  | .string => .ok (.string text)
  | .int =>
    match parseLong text with
    | none => .error ("类型错误：期望整数，实际 '" ++ text ++ "'")
    | some n =>
      if f.minValue ≤ f.maxValue ∧ (n < f.minValue ∨ f.maxValue < n) then
        .error ("超出范围 [" ++ toString f.minValue ++ ", " ++ toString f.maxValue ++ "]，实际 " ++ text)
      else .ok (.integer n)
  | .bool =>
    match parseBool text with
    | none => .error ("类型错误：期望布尔值（true/false），实际 '" ++ text ++ "'")
    | some b => .ok (.boolean b)
  | .stringList => .ok (.array (items.map .string))

def checkEnum (platform : Platform) (f : FieldSpec) (v : Value) : Except String Value :=
  let spelled := renderScalar platform v
  if f.enumValues = [] ∨ spelled ∈ f.enumValues then .ok v
  else .error ("取值非法：'" ++ spelled ++ "'，允许 " ++ " | ".intercalate f.enumValues)

def finalValue (platform : Platform) (f : FieldSpec) (text : String) (items : List String) :
    Except String Value :=
  (converted f text items).bind (checkEnum platform f)

def convertField (platform : Platform) (f : FieldSpec) (source : Source) (text : String)
    (items : List String) : List Problem × Option Value :=
  match finalValue platform f text items with
  | .ok v => ([], some v)
  | .error message => ([⟨f.path, message, source⟩], none)

/-- The problems of a field and its value, from what the layers or the default have for it. -/
def judge (platform : Platform) (req : LoadRequest) (f : FieldSpec) (raw : Value) (source : Source) :
    List Problem × Option Value :=
  match rawTexts platform f.type raw with
  | .error message => ([⟨f.path, message, source⟩], none)
  | .ok (text, items) =>
    if f.type ≠ .string then convertField platform f source text items
    else
      match expandEnvRefs platform req text with
      | (expanded, none) => convertField platform f source expanded items
      | (_, some var) =>
        if f.hasDefault then
          let judged := convertField platform f source f.defaultValue items
          (⟨f.path, "环境变量 " ++ var ++ " 未设置，已回退默认值（请确认这是预期）", .file⟩ :: judged.1,
            judged.2)
        else ([⟨f.path, "引用的环境变量 " ++ var ++ " 未设置", .file⟩], none)

def settle (config : Config) (path : String) (source : Source) : List Problem × Option Value → Config
  | (problems, none) => { config with problems := config.problems ++ problems }
  | (problems, some v) =>
    { (config.setSource path source) with
      effective := config.effective.setAt (segments path) v
      problems := config.problems ++ problems }

/-- One round of the loop over the fields. A default is read like a text of a layer. -/
def checkField (platform : Platform) (req : LoadRequest) (merged : Value) (config : Config) (f : FieldSpec) :
    Config :=
  match merged.getAt (segments f.path) with
  | some raw =>
    let source := (config.sources f.path).getD .file
    settle config f.path source (judge platform req f raw source)
  | none =>
    if f.hasDefault then
      settle (config.setSource f.path .default) f.path .default
        (judge platform req f (.string f.defaultValue) .default)
    else if f.required then config.report ⟨f.path, "必填项缺失", .file⟩
    else config

/-! ## The whole configuration -/

def copyDynamic (merged effective : Value) (above : String) : Value :=
  match merged.getAt (segments above) with
  | some (.object ms) => effective.setAt (segments above) (.object ms)
  | _ => effective

def crossProblems (schema : Schema) (effective : Value) : List Problem :=
  schema.crossChecks.flatMap fun check => (check.2 effective).map fun found =>
    ⟨found.1, (if check.1 = "" then "" else "[" ++ check.1 ++ "] ") ++ found.2, .cross⟩

/-- `Load` -/
def load (platform : Platform) (req : LoadRequest) : Config :=
  let l := layering platform req
  let config := req.schema.fields.foldl (checkField platform req l.merged) l.config
  let effective := req.schema.dynamicPrefixes.foldl (copyDynamic l.merged) config.effective
  { config with
    effective := effective
    problems := config.problems ++ crossProblems req.schema effective }

end FileService.Configuration
