import FileService.App.Queries
import FileService.Domain.World
import FileService.Interaction.Evaluation

/-!
# Listing files page by page

What a listing returns in one state of the service, from the body of the request
to the entries of a page. The numbers of a body go into `int`s.
-/
namespace FileService.App
open FileService.Common FileService.Common.Text FileService.Domain FileService.Infra
open FileService.Interaction

/-! ## The request -/

/-- `get<int>()` -/
def getInt (n : Int) : Int := wrap32 n

def intMember (value : Json.Value) (name : String) : Int :=
  match value.find? name with
  | some (.integer n) => getInt n
  | _ => 0

/-- A time of the body; a text that is no time is an error. -/
def timeMember (parseIso8601 : String → Result Int) (value : Json.Value) (name : String) :
    Result Int :=
  match value.find? name with
  | some (.string text) =>
    match parseIso8601 text with
    | .ok t => .ok t
    | .error _ => .error (err .invalidArgument "TimeFrom/TimeTo 不是合法的 ISO-8601")
  | _ => .ok (-1)

/-- The request that the route makes of a body. -/
def fileListRequest (parseIso8601 : String → Result Int) (value : Json.Value) :
    Result FileListRequest := do
  let timeFrom ← timeMember parseIso8601 value "TimeFrom"
  let timeTo ← timeMember parseIso8601 value "TimeTo"
  return { userId := match value.find? "UserID" with
             | some (.string s) => s
             | _ => ""
           timeFromEpochSeconds := timeFrom
           timeToEpochSeconds := timeTo
           pageNum := intMember value "PageNum"
           items := intMember value "Items" }

/-- What the parser makes of an integer literal: beyond 64 bits it is a float. -/
def integerLiteral (toDouble : Int → UInt64) (n : Int) : Json.Value :=
  if -(2 ^ 63) ≤ n ∧ n < 2 ^ 64 then .integer n else .float (toDouble n)

/-! ## The listing -/

/-- The name of the driver of a record; a member that is no text makes the JSON library throw. -/
def shownDriver (location : FileLocation) : Except Exit String :=
  match location.extra.find? extraDriverName with
  | none => .ok (toUpper (storageDriverName location.driver))
  | some name =>
    match name.asString? with
    | some text => .ok (toUpper text)
    | none => .error (.exception "json.exception.type_error.302")

def shownLocation (location : FileLocation) : Except Exit String :=
  match physicalRef location with
  | .ref ref => .ok (ref.container ++ "/" ++ ref.key)
  | .incomplete => .ok location.fileSource
  | .notText => .error (.exception "json.exception.type_error.302")

/-- The entry of a record. -/
def shown (location : FileLocation) : Except Exit FileListEntry := do
  let driver ← shownDriver location
  let physical ← shownLocation location
  return { fileId := location.fileId
           driver := toLower driver
           location := physical
           createdAtEpochSeconds := location.createdAtEpochSeconds
           createdBy := location.userId }

def nothingFound (pageNum items : Int) : Error :=
  err .invalidArgument ("Nothing found for such filter and page(num: " ++ toString pageNum ++
    ", size: " ++ toString items ++ ").")

/-- What `GetFileList::Execute` returns in a state. -/
def listFiles (d : Deployment) (w : World) (u : UseCasePorts) (caller : CallerContext)
    (request : FileListRequest) : Except Exit FileListResult :=
  Interaction.Action.outcome (fun op => (w.apply d "" op).1) (getFileList u caller request)

/-! ## How a listing leaves -/

section Outcomes
open Interaction.Action
variable (reply : (op : Port) → op.Reply) {u : UseCasePorts} {caller : CallerContext}

theorem outcome_providerKeyOf (location : FileLocation) :
    outcome reply (providerKeyOf location) = shownDriver location := by
  unfold providerKeyOf shownDriver
  cases location.extra.find? extraDriverName with
  | none => rfl
  | some name =>
    dsimp only
    cases name.asString? <;> rfl

theorem outcome_physicalLocationOf (location : FileLocation) :
    outcome reply (physicalLocationOf location) = shownLocation location := by
  unfold physicalLocationOf shownLocation objectRefFromLocation
  cases physicalRef location <;> rfl

theorem outcome_fileListEntry (location : FileLocation) :
    outcome reply (fileListEntry location) = shown location := by
  unfold fileListEntry shown
  rw [outcome_bind, outcome_providerKeyOf]
  cases shownDriver location with
  | error e => rfl
  | ok driver =>
    dsimp only
    rw [outcome_bind, outcome_physicalLocationOf]
    cases shownLocation location <;> rfl

end Outcomes

/-- The use case under its audit: what it returns in a state. -/
theorem outcome_audited {α : Type} (d : Deployment) (w : World) (u : UseCasePorts)
    (caller : CallerContext) (operation objectId : String) (body : Action (Option String × α)) :
    Interaction.Action.outcome (fun op => (w.apply d "" op).1)
        (audited u caller operation objectId body) =
      (Interaction.Action.outcome (fun op => (w.apply d "" op).1) body).map Prod.snd := by
  unfold audited
  rw [Interaction.Action.outcome_exitingWith]
  cases Interaction.Action.outcome (fun op => (w.apply d "" op).1) body with
  | error exit => cases exit <;> rfl
  | ok out =>
    obtain ⟨successId, a⟩ := out
    cases successId <;> rfl

open Interaction.Action in
theorem listFiles_eq (d : Deployment) (w : World) (u : UseCasePorts) {caller : CallerContext}
    (hcaller : caller.partition ≠ "") (request : FileListRequest) :
    listFiles d w u caller request =
      if request.items ≤ 0 then .error (.error (err .invalidArgument "Items 必须 > 0"))
      else if request.pageNum < 0 then .error (.error (err .invalidArgument "PageNum 必须 >= 0"))
      else if 0 ≤ request.timeFromEpochSeconds ∧ 0 ≤ request.timeToEpochSeconds ∧
          request.timeToEpochSeconds < request.timeFromEpochSeconds then
        .error (.error (err .invalidArgument "TimeFrom should be before TimeTo"))
      else
        match w.locations.list caller.partition
          { userId := request.userId
            createdAfterEpochSeconds := request.timeFromEpochSeconds
            createdBeforeEpochSeconds := request.timeToEpochSeconds
            limit := request.items
            offset := wrap32 (request.pageNum * request.items) } with
        | .error e => .error (.error e)
        | .ok page =>
          if page.total = 0 ∨ page.records.isEmpty then
            .error (.error (nothingFound request.pageNum request.items))
          else (page.records.mapM shown).map fun content =>
            { content
              number := request.pageNum
              numberOfElements := content.length
              size := request.items
              total := page.total } := by
  unfold listFiles getFileList
  rw [outcome_audited, outcome_bind]
  have hauthorized : Interaction.Action.outcome (fun op => (w.apply d "" op).1)
      (authorizeCaller caller roleFileEditors) = .ok () := by
    unfold authorizeCaller
    rw [if_neg hcaller]
    rfl
  rw [hauthorized]
  dsimp only
  by_cases hitems : request.items ≤ 0
  · simp only [if_pos hitems]
    rfl
  simp only [if_neg hitems]
  by_cases hpage : request.pageNum < 0
  · simp only [if_pos hpage]
    rfl
  simp only [if_neg hpage]
  by_cases hinverted : 0 ≤ request.timeFromEpochSeconds ∧ 0 ≤ request.timeToEpochSeconds ∧
      request.timeToEpochSeconds < request.timeFromEpochSeconds
  · simp only [if_pos hinverted]
    rfl
  simp only [if_neg hinverted]
  have hlist : ∀ query, Interaction.Action.outcome (fun op => (w.apply d "" op).1)
      (Action.ask (.locations (.list caller.partition query))) =
        .ok (w.locations.list caller.partition query) := fun _ => rfl
  rw [outcome_bind, hlist]
  dsimp only
  generalize w.locations.list caller.partition _ = listed
  cases listed with
  | error e => rfl
  | ok page =>
    have hpage' : Interaction.Action.outcome (fun op => (w.apply d "" op).1)
        (Action.tryResult (.ok page)) = .ok page := rfl
    rw [outcome_bind, hpage']
    dsimp only
    by_cases hnothing : page.total = 0 ∨ page.records.isEmpty = true
    · simp only [if_pos hnothing]
      rfl
    simp only [if_neg hnothing]
    rw [outcome_bind, outcome_mapM]
    simp only [outcome_fileListEntry]
    cases page.records.mapM shown <;> rfl

end FileService.App
