import FileService.Http.StreamedUpload
import FileService.Interaction.Machine

/-!
# Requests that share one error

A dispatch that runs by itself reads back the error it has stored. Among others
it may read the error of another request. It does not as long as nobody stores
an error while another dispatch is about to read its own.
-/
namespace FileService.Http
open FileService.Common FileService.Domain FileService.Interaction

/-- The program by itself, the member holding `last` at the start. -/
def runAlone {α : Type} : Program members α → Response → α
  | .ret a, _ => a
  | .call (.setLastBodyError res) next, _ => runAlone (next ()) res
  | .call .lastBodyError next, last => runAlone (next last) last

/-- The answer that a request, its body events and its handler determine. -/
def answerAlone (srv : ServerOptions) (routes : List Route) (x : Exchange) :
    Response × LibraryRequest :=
  runAlone (dispatch srv routes x) {}

def AboutToRead {α : Type} : Program members α → Prop
  | .call .lastBodyError _ => True
  | _ => False

/-- Only a program that is about to read depends on what the member holds. -/
theorem runAlone_eq_of_not_aboutToRead {α : Type} {p : Program members α} (h : ¬AboutToRead p)
    (last last' : Response) : runAlone p last = runAlone p last' := by
  cases p with
  | ret a => rfl
  | call op next =>
    cases op with
    | setLastBodyError res => rfl
    | lastBodyError => exact absurd trivial h

section Concurrent
variable {ι : Type} [DecidableEq ι] {srv : ServerOptions} {routes : List Route} {x : ι → Exchange}

/-- An error is stored only while no other dispatch is about to read one. -/
def Undisturbed (c : Serving ι) (i : ι) : members.Op → Prop
  | .setLastBodyError _ => ∀ j, j ≠ i → ¬AboutToRead (c.threads j)
  | .lastBodyError => True

/-- Left to itself, every dispatch would now come to its own answer. -/
def OnCourse (srv : ServerOptions) (routes : List Route) (x : ι → Exchange) (c : Serving ι) :
    Prop :=
  ∀ i, runAlone (c.threads i) c.state = answerAlone srv routes (x i)

theorem onCourse_call {c : Serving ι} {i : ι} {op : members.Op}
    {next : members.Reply op → Program members (Response × LibraryRequest)}
    {r : members.Reply op} {last : Response} (h : OnCourse srv routes x c)
    (hnext : c.threads i = .call op next) (hexec : memberMachine.exec c.state op r last)
    (hK : Undisturbed c i op) :
    OnCourse srv routes x { threads := Function.update c.threads i (next r), state := last } := by
  intro j
  have hj := h j
  by_cases hji : j = i
  · subst hji
    rw [hnext] at hj
    cases op with
    | setLastBodyError res =>
      obtain rfl : last = res := hexec
      simpa [runAlone] using hj
    | lastBodyError =>
      obtain ⟨rfl, rfl⟩ := hexec
      simpa [runAlone] using hj
  · simp only [Function.update_of_ne hji]
    cases op with
    | setLastBodyError res => exact (runAlone_eq_of_not_aboutToRead (hK j hji) _ _).trans hj
    | lastBodyError =>
      obtain ⟨-, rfl⟩ := hexec
      exact hj

/-- When no error is stored while another dispatch is about to read its own, every request is
answered as it would be by itself. -/
theorem answers_independent {c : Serving ι}
    (hrun : memberMachine.ReachesWhere Undisturbed (serving srv routes x) c) (i : ι)
    {answer : Response × LibraryRequest} (hanswer : c.threads i = .ret answer) :
    answer = answerAlone srv routes (x i) := by
  have hcourse : OnCourse srv routes x c :=
    hrun.invariant (fun _ => rfl) (fun _ hstep => hstep.elim) onCourse_call
  have hi := hcourse i
  rwa [hanswer] at hi

end Concurrent

/-! ## Two uploads that fail in different ways -/

section Sample

def sampleJsonRoute : Route := makeRoute .post "/files" {}

/-- A request that declares five octets. -/
def failingUpload (arrivals : List (Bytes × Int)) : Exchange where
  hreq := { method := "POST", target := "/files", path := "/files",
            headers := ⟨[("Content-Length", "5"), ("x-correlation-id", "c1")]⟩ }
  uuid := "u1"
  hasReader := true
  startedAt := 0
  arrivals
  readerOk := false
  streaming := Streaming.start (receiverFor {} sampleJsonRoute 0) 0
  handler := fun _ => .throws none
  checkedAt := 20000

/-- One request gets its body too late, the other one only a part of it. -/
def sampleUploads : Bool → Exchange
  | true => failingUpload [([1], 20000)]
  | false => failingUpload [([1, 2], 1)]

def timedOut : Response :=
  ServerOptions.error {} 408 "request body timed out (no progress within 15s)"

def cutShort : Response :=
  ServerOptions.error {} 400 "content-length mismatch: declared 5, read 2"

/-- Store the error, read it back, answer with what was read. -/
def reporting (e : Response) (x : Exchange) : Program members (Response × LibraryRequest) :=
  .call (.setLastBodyError e) fun _ => .call .lastBodyError fun last => .ret (last, x.hreq)

theorem sampleUploads_late : dispatch {} [sampleJsonRoute] (sampleUploads true) =
    reporting timedOut (sampleUploads true) := by
  rfl

theorem sampleUploads_short : dispatch {} [sampleJsonRoute] (sampleUploads false) =
    reporting cutShort (sampleUploads false) := by
  rfl

theorem answerAlone_reporting {x : Exchange} {e : Response}
    (h : dispatch {} [sampleJsonRoute] x = reporting e x) :
    answerAlone {} [sampleJsonRoute] x = (e, x.hreq) := by
  rw [answerAlone, h]
  rfl

/-- The late request is told that its declared length was wrong. -/
theorem late_upload_answered_short :
    ¬∀ (x : Bool → Exchange) (t : History members Bool Response) (c : Serving Bool) (i : Bool)
      (answer : Response × LibraryRequest),
      memberMachine.Reaches (serving {} [sampleJsonRoute] x) t c → c.threads i = .ret answer →
        answer = answerAlone {} [sampleJsonRoute] (x i) := by
  intro h
  have lateStored := Machine.Reaches.init.call
    (show (serving {} [sampleJsonRoute] sampleUploads).threads true = .call _ _
      from sampleUploads_late) (r := ()) (show memberMachine.exec _ _ _ timedOut from rfl)
  have shortStored := lateStored.call (i := false) (r := ()) sampleUploads_short
    (show memberMachine.exec _ _ _ cutShort from rfl)
  have lateRead := shortStored.call (i := true) (r := cutShort) rfl ⟨rfl, rfl⟩
  have hanswer := h sampleUploads _ _ true (cutShort, (sampleUploads true).hreq) lateRead rfl
  rw [answerAlone_reporting sampleUploads_late] at hanswer
  have hstatus := congrArg (fun a => a.1.status) hanswer
  exact absurd hstatus (by decide)

/-- One after the other, each of them is told what was wrong with it. -/
theorem sampleUploads_independent :
    (timedOut, (sampleUploads true).hreq) =
        answerAlone {} [sampleJsonRoute] (sampleUploads true) ∧
      (cutShort, (sampleUploads false).hreq) =
        answerAlone {} [sampleJsonRoute] (sampleUploads false) := by
  have hshort : ¬AboutToRead (dispatch {} [sampleJsonRoute] (sampleUploads false)) := by
    rw [sampleUploads_short]
    exact id
  have lateStored := Machine.ReachesWhere.init.call
    (show (serving {} [sampleJsonRoute] sampleUploads).threads true = .call _ _
      from sampleUploads_late) (r := ()) (show memberMachine.exec _ _ _ timedOut from rfl)
    (show Undisturbed _ true _ from fun
      | true, h => absurd rfl h
      | false, _ => hshort)
  have lateRead := lateStored.call (i := true) (r := timedOut) rfl ⟨rfl, rfl⟩ trivial
  have shortStored := lateRead.call (i := false) (r := ()) sampleUploads_short
    (show memberMachine.exec _ _ _ cutShort from rfl)
    (show Undisturbed _ false _ from fun
      | true, _ => id
      | false, h => absurd rfl h)
  have shortRead := shortStored.call (i := false) (r := cutShort) rfl ⟨rfl, rfl⟩ trivial
  exact ⟨answers_independent shortRead true rfl, answers_independent shortRead false rfl⟩

end Sample

end FileService.Http
